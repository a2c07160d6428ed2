import BuildTargets.Proofs.Toml.Entries

/-!
# The comments of a TOML text

A comment begins with a number sign that stands in no string and goes on to the end of its line.
`comments` finds them from the text alone, without reading a document.  That a document keeps its
comments is settled piece by piece, and pieces are put together in an order of their own, so the pieces
must not run into each other: a piece is sealed before what follows if it has the same comments there
as on its own (`SealedBefore`).  Here this is settled for what stands between two clauses
(`sealed_of_trivia`) and behind a clause (`sealed_of_lineRest`).
-/

namespace BuildTargets.Toml

/-! ## Comments -/

/-- Whether a comment does not go on with a character. -/
def endsComment (c : Char) : Bool := c = '\n' || c = '\r'

/-- What follows a string is shorter than the text it was read from. -/
theorem string?_length {s t rest : Text} (h : string? s = some (t, rest)) :
    rest.length < s.length := by
  obtain ⟨u, rfl, hread⟩ := exists_of_string? h
  obtain ⟨c, u', hu, -⟩ := exists_cons_of_string? (hread [] nofun nofun)
  rw [List.append_nil] at hu
  rw [hu, List.length_append, List.length_cons]
  omega

/-- The comments of a text, in order. Number signs in strings do not begin any. -/
def comments : Text → List Text
  | [] => []
  | c :: s =>
    if c = '#' then
      (c :: s.takeWhile fun d => !endsComment d) :: comments (s.dropWhile fun d => !endsComment d)
    else
      match _h : string? (c :: s) with
      | some (_, rest) => comments rest
      | none => comments s
termination_by s => s.length
decreasing_by
  · have := (List.dropWhile_sublist (fun d => !endsComment d) (l := s)).length_le
    simp only [List.length_cons]
    omega
  · exact string?_length _h
  · simp

@[simp] theorem comments_nil : comments [] = [] := by
  rw [comments]

/-- A comment goes on to the end of its line. -/
theorem comments_hash {body s : Text} (hbody : ∀ c ∈ body, endsComment c = false)
    (hs : ∀ c ∈ s.head?, endsComment c = true) :
    comments ('#' :: (body ++ s)) = ('#' :: body) :: comments s := by
  obtain ⟨htake, hdrop⟩ := takeWhile_dropWhile_append (p := fun d => !endsComment d) (u := body)
    (s := s) (fun c hc => by rw [hbody c hc]; rfl) fun c hc => by rw [hs c hc]; rfl
  rw [comments, if_pos rfl, htake, hdrop]

/-- Nothing in a string is a comment. -/
theorem comments_of_string? {s t rest : Text} (h : string? s = some (t, rest)) :
    comments s = comments rest := by
  obtain ⟨c, u, rfl, hc⟩ := exists_cons_of_string? h
  have hhash : ¬c = '#' := by
    rcases hc with rfl | rfl <;> decide
  rw [comments, if_neg hhash]
  split
  · next h' =>
    rw [h] at h'
    cases h'
    rfl
  · next h' => simp [h] at h'

/-- Whether a character begins a comment or a string. -/
def isMark (c : Char) : Bool := c = '#' || c = '"' || c = '\''

theorem isMark_of_any {u : Text} (h : u.any isMark = false) : ∀ c ∈ u, isMark c = false :=
  fun c hc => by simpa using List.any_eq_false.1 h c hc

theorem comments_cons {c : Char} (hc : isMark c = false) (s : Text) :
    comments (c :: s) = comments s := by
  have hhash : ¬c = '#' := by
    rintro rfl
    exact absurd hc (by decide)
  rw [comments, if_neg hhash]
  split
  · next h =>
    obtain ⟨_, _, heq, hquote⟩ := exists_cons_of_string? h
    cases heq
    rcases hquote with rfl | rfl <;> exact absurd hc (by decide)
  · rfl

/-- Characters that begin neither a comment nor a string can be put anywhere. -/
theorem comments_append_of_isMark {u : Text} (hu : ∀ c ∈ u, isMark c = false) (s : Text) :
    comments (u ++ s) = comments s := by
  induction u with
  | nil => rfl
  | cons c u ih =>
    rw [List.cons_append, comments_cons (hu c List.mem_cons_self)]
    exact ih fun d hd => hu d (List.mem_cons_of_mem c hd)

theorem isMark_of_isSpace {c : Char} (h : isSpace c = true) : isMark c = false := by
  rcases isSpace_iff.1 h with rfl | rfl <;> decide

theorem endsComment_of_not_isControl {c : Char} (hfeed : ¬c = '\n') (hc : ¬isControl c = true) :
    endsComment c = false := by
  simp [endsComment, hfeed, ne_return_of_not_isControl hc]

/-- A byte order mark makes no comment. -/
theorem comments_withoutMark (s : Text) : comments (withoutMark s) = comments s := by
  cases s with
  | nil => rfl
  | cons c s =>
    rw [withoutMark]
    split
    · next h => rw [h, comments_cons (by decide)]
    · rfl

/-! ## Pieces of a text -/

/-- A text has its own comments before every text of a kind, as if it stood alone. -/
def SealedBefore (P : Text → Prop) (u : Text) : Prop :=
  ∀ s, P s → comments (u ++ s) = comments u ++ comments s

/-- A text has its own comments whatever follows. -/
abbrev Sealed : Text → Prop := SealedBefore fun _ => True

/-- A text that begins a new line. -/
def BeginsLine (s : Text) : Prop := ∃ s', s = '\n' :: s'

theorem Sealed.comments_append {u : Text} (hu : Sealed u) (s : Text) :
    comments (u ++ s) = comments u ++ comments s :=
  hu s trivial

theorem SealedBefore.mono {P Q : Text → Prop} {u : Text} (hu : SealedBefore P u)
    (h : ∀ s, Q s → P s) : SealedBefore Q u :=
  fun s hs => hu s (h s hs)

/-- Two pieces make one, if the first is sealed before the second. -/
theorem SealedBefore.append {P Q : Text → Prop} {u v : Text} (hu : SealedBefore P u)
    (hv : SealedBefore Q v) (h : ∀ s, Q s → P (v ++ s)) (hnil : P v) : SealedBefore Q (u ++ v) := by
  intro s hs
  rw [List.append_assoc, hu _ (h s hs), hv s hs, hu v hnil, List.append_assoc]

theorem comments_of_isMark {u : Text} (hu : ∀ c ∈ u, isMark c = false) : comments u = [] := by
  have h := comments_append_of_isMark hu []
  rwa [List.append_nil, comments_nil] at h

theorem sealed_of_isMark {u : Text} (hu : ∀ c ∈ u, isMark c = false) : Sealed u := by
  intro s _
  rw [comments_append_of_isMark hu, comments_of_isMark hu, List.nil_append]

theorem sealed_nil : Sealed [] := sealed_of_isMark (List.forall_mem_nil _)

/-! ## Between and behind clauses -/

/-- What a scanner has in hand when it goes on: nothing, or within a comment what it has of that. -/
def IsLead (comment : Bool) (lead : Text) : Prop :=
  if comment then ∃ body, lead = '#' :: body ∧ ∀ c ∈ body, endsComment c = false else lead = []

theorem isLead_false {lead : Text} : IsLead false lead ↔ lead = [] := by
  simp [IsLead]

theorem isLead_true {lead : Text} :
    IsLead true lead ↔ ∃ body, lead = '#' :: body ∧ ∀ c ∈ body, endsComment c = false := by
  simp [IsLead]

theorem IsLead.eq_nil {comment : Bool} {lead : Text} (h : IsLead comment lead)
    (hcomment : ¬comment = true) : lead = [] := by
  rwa [Bool.eq_false_iff.2 hcomment, isLead_false] at h

theorem isLead_hash : IsLead true ['#'] :=
  isLead_true.2 ⟨[], rfl, List.forall_mem_nil _⟩

/-- A comment goes on with every character that does not end it. -/
theorem IsLead.concat {lead : Text} (h : IsLead true lead) {c : Char} (hc : endsComment c = false) :
    IsLead true (lead ++ [c]) := by
  obtain ⟨body, rfl, hbody⟩ := isLead_true.1 h
  refine isLead_true.2 ⟨body ++ [c], rfl, fun d hd => ?_⟩
  rcases List.mem_append.1 hd with hd | hd
  · exact hbody d hd
  · rwa [List.mem_singleton.1 hd]

/-- A line end closes a comment. -/
theorem IsLead.comments_append {comment : Bool} {lead : Text} (h : IsLead comment lead) {s : Text}
    (hs : ∀ c ∈ s.head?, endsComment c = true) :
    comments (lead ++ s) = comments lead ++ comments s := by
  cases comment with
  | false => rw [isLead_false.1 h, comments_nil, List.nil_append, List.nil_append]
  | true =>
    obtain ⟨body, rfl, hbody⟩ := isLead_true.1 h
    have halone := comments_hash (s := []) hbody (by rintro _ ⟨⟩)
    rw [List.append_nil, comments_nil] at halone
    rw [List.cons_append, comments_hash hbody hs, halone, List.singleton_append]

theorem IsLead.comments_lineFeed {comment : Bool} {lead : Text} (h : IsLead comment lead)
    (s : Text) : comments (lead ++ '\n' :: s) = comments lead ++ comments s := by
  rw [h.comments_append (by rintro _ ⟨⟩; decide), comments_cons (by decide)]

theorem IsLead.comments_return {comment : Bool} {lead : Text} (h : IsLead comment lead)
    (s : Text) : comments (lead ++ '\r' :: '\n' :: s) = comments lead ++ comments s := by
  rw [h.comments_append (by rintro _ ⟨⟩; decide), comments_cons (by decide),
    comments_cons (by decide)]

/-- A lead is sealed before a new line. -/
theorem IsLead.sealedBefore {comment : Bool} {lead : Text} (h : IsLead comment lead) :
    SealedBefore BeginsLine lead := by
  rintro _ ⟨s, rfl⟩
  rw [h.comments_lineFeed, comments_cons (by decide)]

/-- A line end closes the lead, and what follows is settled without one. -/
theorem IsLead.comments_line {comment : Bool} {lead : Text} (h : IsLead comment lead)
    {s t rest : Text} {P : Prop} (ht : comments s = comments t ++ comments rest ∧ (P → Sealed t)) :
    comments lead ++ comments s = comments (lead ++ '\n' :: t) ++ comments rest ∧
      (P → Sealed (lead ++ '\n' :: t)) := by
  refine ⟨by rw [h.comments_lineFeed, ht.1, List.append_assoc], fun hP s _ => ?_⟩
  rw [List.append_assoc, List.cons_append, h.comments_lineFeed, h.comments_lineFeed,
    (ht.2 hP).comments_append, List.append_assoc]

/-- A space in front makes no difference to what comments a text has. -/
theorem comments_cons_of_isSpace {c : Char} (hc : isSpace c = true) {s t rest : Text}
    (h : comments s = comments t ++ comments rest) :
    comments (c :: s) = comments (c :: t) ++ comments rest := by
  rw [comments_cons (isMark_of_isSpace hc), comments_cons (isMark_of_isSpace hc), h]

theorem SealedBefore.cons {P : Text → Prop} {u : Text} (hu : SealedBefore P u) {c : Char}
    (hc : isSpace c = true) : SealedBefore P (c :: u) :=
  fun s hs => comments_cons_of_isSpace hc (hu s hs)

/-- What stands between two clauses has all comments there, and is sealed if anything follows.  The
lead is what the scanner has taken of a comment so far. -/
theorem comments_of_trivia_lead {comment : Bool} {s taken rest lead : Text}
    (h : trivia comment s = some (taken, rest)) (hlead : IsLead comment lead) :
    comments (lead ++ s) = comments (lead ++ taken) ++ comments rest ∧
      (rest ≠ [] → Sealed (lead ++ taken)) := by
  fun_induction trivia comment s generalizing taken lead with
  | case1 =>
    cases h
    exact ⟨by rw [List.append_nil, comments_nil, List.append_nil], fun hne => absurd rfl hne⟩
  | case2 comment s ih =>
    obtain ⟨t, ht, rfl⟩ := consTaken_eq_some_iff.1 h
    rw [hlead.comments_return]
    exact hlead.comments_line (ih ht (isLead_false.2 rfl))
  | case3 comment s _ ih =>
    obtain ⟨t, ht, rfl⟩ := consTaken_eq_some_iff.1 h
    rw [hlead.comments_lineFeed]
    exact hlead.comments_line (ih ht (isLead_false.2 rfl))
  | case4 => cases h
  | case5 c s _ hfeed hcontrol ih =>
    obtain ⟨t, ht, rfl⟩ := consTaken_eq_some_iff.1 h
    have ih := ih ht (hlead.concat (endsComment_of_not_isControl hfeed hcontrol))
    simpa using ih
  | case6 comment s hcomment _ _ ih =>
    obtain ⟨t, ht, rfl⟩ := consTaken_eq_some_iff.1 h
    rw [hlead.eq_nil hcomment]
    exact ih ht isLead_hash
  | case7 comment c s _ _ hcomment _ hspace ih =>
    obtain ⟨t, ht, rfl⟩ := consTaken_eq_some_iff.1 h
    obtain ⟨hsame, hsealed⟩ := ih ht (isLead_false.2 rfl)
    rw [hlead.eq_nil hcomment]
    exact ⟨comments_cons_of_isSpace hspace hsame, fun hrest => (hsealed hrest).cons hspace⟩
  | case8 comment c s _ _ hcomment _ _ =>
    cases h
    rw [hlead.eq_nil hcomment]
    exact ⟨by rw [List.append_nil, comments_nil]; rfl, fun _ => sealed_nil⟩

/-- What stands between two clauses has all comments there. -/
theorem comments_of_trivia {s taken rest : Text} (h : trivia false s = some (taken, rest)) :
    comments s = comments taken ++ comments rest :=
  (comments_of_trivia_lead h (isLead_false.2 rfl)).1

/-- What stands between two clauses is sealed: a comment there ends with its line. -/
theorem sealed_of_trivia {s taken rest : Text} (h : trivia false s = some (taken, rest))
    (hrest : rest ≠ []) : Sealed taken :=
  (comments_of_trivia_lead h (isLead_false.2 rfl)).2 hrest

/-- What stands behind a clause has all comments there, and is sealed at the end of its line. -/
theorem comments_of_lineRest_lead {comment : Bool} {s taken rest lead : Text}
    (h : lineRest comment s = some (taken, rest)) (hlead : IsLead comment lead) :
    comments (lead ++ s) = comments (lead ++ taken) ++ comments rest ∧
      SealedBefore BeginsLine (lead ++ taken) := by
  fun_induction lineRest comment s generalizing taken lead with
  | case1 =>
    cases h
    rw [List.append_nil, comments_nil, List.append_nil]
    exact ⟨rfl, hlead.sealedBefore⟩
  | case2 comment s =>
    cases h
    rw [hlead.comments_return, List.append_nil]
    exact ⟨rfl, hlead.sealedBefore⟩
  | case3 comment s _ =>
    cases h
    rw [hlead.comments_lineFeed, List.append_nil]
    exact ⟨rfl, hlead.sealedBefore⟩
  | case4 => cases h
  | case5 c s _ hfeed hcontrol ih =>
    obtain ⟨t, ht, rfl⟩ := consTaken_eq_some_iff.1 h
    have ih := ih ht (hlead.concat (endsComment_of_not_isControl hfeed hcontrol))
    simpa using ih
  | case6 comment s hcomment _ _ ih =>
    obtain ⟨t, ht, rfl⟩ := consTaken_eq_some_iff.1 h
    rw [hlead.eq_nil hcomment]
    exact ih ht isLead_hash
  | case7 comment c s _ _ hcomment _ hspace ih =>
    obtain ⟨t, ht, rfl⟩ := consTaken_eq_some_iff.1 h
    obtain ⟨hsame, hsealed⟩ := ih ht (isLead_false.2 rfl)
    rw [hlead.eq_nil hcomment]
    exact ⟨comments_cons_of_isSpace hspace hsame, hsealed.cons hspace⟩
  | case8 => cases h

/-- What stands behind a clause has all comments there. -/
theorem comments_of_lineRest {s taken rest : Text} (h : lineRest false s = some (taken, rest)) :
    comments s = comments taken ++ comments rest :=
  (comments_of_lineRest_lead h (isLead_false.2 rfl)).1

/-- What stands behind a clause is sealed at the end of its line. -/
theorem sealed_of_lineRest {s taken rest : Text} (h : lineRest false s = some (taken, rest)) :
    SealedBefore BeginsLine taken :=
  (comments_of_lineRest_lead h (isLead_false.2 rfl)).2

end BuildTargets.Toml
