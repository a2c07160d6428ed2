import BuildTargets.Proofs.Fault.Bind
import BuildTargets.Proofs.Text.Trim
import BuildTargets.Proofs.Text.Utf8
import BuildTargets.Prompt

/-!
# Each question is decided by its own line

Questions that are asked one after the other read from one input, and each is written to an output of
its own, which may take only so many octets.  The input falls into lines (`IsCut`), and a question takes
the next of these if it can be written in full, and none otherwise.  So what becomes of a question
depends on one line, the number of which is the number of the questions in front of it that were written
in full (`interview_by_lines`).
-/

namespace BuildTargets

namespace Prompt

/-! ## Questions and their answers -/

/-- A question, and how many octets its output takes, if that is limited. -/
structure Inquiry where
  question : Question
  room : Option Nat
  deriving DecidableEq, Repr

/-- What came of a question. -/
structure Reply where
  agreed : Bool
  shown : Bytes
  deriving DecidableEq, Repr

/-- Puts a question to someone who has typed this input.  What is left of the input is the new state. -/
def answer (a : Inquiry) : StateM Bytes Reply := fun input =>
  let (agreed, t) := confirm Terminal.console a.question { input := input, room := a.room }
  (⟨agreed, t.shown⟩, t.input)

/-- Puts questions one after the other. -/
def interview (asks : List Inquiry) : StateM Bytes (List Reply) := asks.mapM answer

/-- The octets that spell a question. -/
def Inquiry.octets (a : Inquiry) : Bytes := Utf8.encode a.question.text

/-- Whether a question can be written in full. -/
def Inquiry.fits (a : Inquiry) : Bool := a.room.all (a.octets.length ≤ ·)

/-! ## The lines of an input -/

/-- The lines of an input, each with its line feed.  What is left behind the last line feed is a line as
well, unless it is nothing. -/
inductive IsCut : Bytes → List Bytes → Prop where
  | nil : IsCut [] []
  | rest {s : Bytes} (hne : s ≠ []) (hs : 10 ∉ s) : IsCut s [s]
  | line {s input : Bytes} {ls : List Bytes} (hs : 10 ∉ s) (h : IsCut input ls) :
      IsCut (s ++ 10 :: input) ((s ++ [10]) :: ls)

/-- Cuts an input into its lines. -/
def lines : Bytes → List Bytes
  | [] => []
  | b :: s =>
    if b = 10 then [b] :: lines s
    else
      match lines s with
      | [] => [[b]]
      | l :: ls => (b :: l) :: ls

variable {input s : Bytes} {ls : List Bytes}

theorem lines_cons {b : UInt8} (hb : b ≠ 10) (s : Bytes) :
    lines (b :: s) = (b :: (lines s).headD []) :: (lines s).tail := by
  rw [lines, if_neg hb]
  cases lines s <;> rfl

/-- Cutting an input gives its lines. -/
theorem isCut_lines (input : Bytes) : IsCut input (lines input) := by
  induction input with
  | nil => exact .nil
  | cons b s ih =>
    by_cases hb : b = 10
    · rw [lines, if_pos hb, hb]
      exact .line List.not_mem_nil ih
    · have hcons : ∀ {r : Bytes}, 10 ∉ r → 10 ∉ b :: r := fun hr =>
        List.not_mem_cons_of_ne_of_not_mem (Ne.symm hb) hr
      rw [lines_cons hb]
      generalize lines s = ls at ih
      cases ih with
      | nil => exact .rest (List.cons_ne_nil b []) (hcons List.not_mem_nil)
      | rest hne hs => exact .rest (List.cons_ne_nil b _) (hcons hs)
      | line hs h => exact .line (hcons hs) h

/-- Nothing is lost between the lines. -/
theorem IsCut.flatten (h : IsCut input ls) : ls.flatten = input := by
  induction h with
  | nil => rfl
  | rest hne hs => exact List.flatten_singleton
  | line hs h ih => rw [List.flatten_cons, ih, List.append_assoc, List.singleton_append]

/-- The lines behind the first are those of what follows it. -/
theorem IsCut.tail (h : IsCut input ls) : IsCut ls.tail.flatten ls.tail := by
  cases h with
  | nil | rest => exact .nil
  | line hs h =>
    rw [List.tail_cons, h.flatten]
    exact h

/-- What stands in front of the first line feed is taken along with it. -/
theorem takeLine_append (hs : 10 ∉ s) (input : Bytes) :
    takeLine (s ++ 10 :: input) = (s ++ [10], input) := by
  induction s with
  | nil => rfl
  | cons b s ih =>
    have hb : b ≠ 10 := fun h => hs (h ▸ List.mem_cons_self)
    rw [List.cons_append, takeLine, if_neg hb, ih fun h => hs (List.mem_cons_of_mem b h)]
    rfl

/-- An input without a line feed is taken as a whole. -/
theorem takeLine_of_not_mem (hs : 10 ∉ s) : takeLine s = (s, []) := by
  induction s with
  | nil => rfl
  | cons b s ih =>
    have hb : b ≠ 10 := fun h => hs (h ▸ List.mem_cons_self)
    rw [takeLine, if_neg hb, ih fun h => hs (List.mem_cons_of_mem b h)]

/-- The next line of an input is the first of its lines. -/
theorem takeLine_of_isCut (h : IsCut input ls) :
    takeLine input = (ls.headD [], ls.tail.flatten) := by
  cases h with
  | nil => rfl
  | rest hne hs => exact takeLine_of_not_mem hs
  | line hs h =>
    rw [takeLine_append hs]
    exact Prod.ext rfl h.flatten.symm

/-- An input has its lines in one way only. -/
theorem isCut_iff : IsCut input ls ↔ ls = lines input := by
  constructor
  · intro h
    have hcut := isCut_lines input
    generalize lines input = ls' at hcut
    induction h generalizing ls' with
    | nil =>
      generalize hinput : ([] : Bytes) = input at hcut
      cases hcut with
      | nil => rfl
      | rest hne hs => exact absurd hinput.symm hne
      | line => simp at hinput
    | rest hne hs =>
      cases hcut with
      | nil => exact absurd rfl hne
      | rest => rfl
      | line => simp at hs
    | line hs h ih =>
      have htake := (takeLine_of_isCut hcut).symm.trans (takeLine_append hs _)
      obtain ⟨hhead, htail⟩ := Prod.mk.inj htake
      cases ls' with
      | nil => exact absurd hhead.symm (by simp)
      | cons l ls' =>
        have hrest := hcut.tail
        rw [htail] at hrest
        rw [ih ls' hrest]
        exact congrArg (· :: ls') hhead.symm
  · rintro rfl
    exact isCut_lines input

theorem takeLine_eq (input : Bytes) :
    takeLine input = ((lines input).headD [], (lines input).tail.flatten) :=
  takeLine_of_isCut (isCut_lines input)

theorem flatten_lines (input : Bytes) : (lines input).flatten = input := (isCut_lines input).flatten

/-- Behind its first line an input has the other lines. -/
theorem lines_tail_flatten (input : Bytes) : lines (lines input).tail.flatten = (lines input).tail :=
  (isCut_iff.1 (isCut_lines input).tail).symm

/-! ## Answers -/

/-- A line that agrees: `y` or `yes`, in either case, with blanks around it. -/
def IsConsent (line : Bytes) : Prop :=
  ∃ b word b' : Text, b.IsBlank ∧ b'.IsBlank ∧ line = Utf8.encode (b ++ word ++ b') ∧
    (word.map Char.toLower = "y".toList ∨ word.map Char.toLower = "yes".toList)

/-- A blank has no lower case. -/
theorem toLower_of_isBlank {c : Char} (hc : isBlank c = true) : c.toLower = c := by
  have hupper : ¬(65 ≤ c.toNat ∧ c.toNat ≤ 90) := by
    rintro ⟨hlow, hhigh⟩
    rw [isBlank, List.any_eq_true] at hc
    obtain ⟨range, hrange, hc⟩ := hc
    simp only [blankRanges, List.mem_cons, List.not_mem_nil, or_false] at hrange
    rcases hrange with rfl | rfl | rfl | rfl | rfl | rfl | rfl | rfl | rfl | rfl <;>
      simp at hc <;> omega
  exact dif_neg fun h => hupper h

/-- What is `y` or `yes` in lower case has no blanks at its ends. -/
theorem trim_of_map_toLower {word : Text}
    (h : word.map Char.toLower = "y".toList ∨ word.map Char.toLower = "yes".toList) :
    Text.trim word = word := by
  have hletters : ∀ d ∈ word.map Char.toLower, isBlank d = false := by
    rcases h with h | h <;> rw [h] <;> simp [isBlank, blankRanges]
  have hword : ∀ c ∈ word, isBlank c = false := by
    intro c hc
    rw [← Bool.not_eq_true]
    intro hblank
    have hlowered := hletters _ (List.mem_map_of_mem hc)
    rw [toLower_of_isBlank hblank, hblank] at hlowered
    cases hlowered
  exact Text.trim_eq_self_iff.2
    ⟨fun c hc => hword c (List.mem_of_mem_head? hc), fun c hc => hword c (List.mem_of_getLast? hc)⟩

/-- An answer is taken for a yes exactly if it is one. -/
theorem agrees_iff {line : Bytes} : agrees line = true ↔ IsConsent line := by
  constructor
  · intro h
    rw [agrees] at h
    split at h
    · cases h
    · next t ht =>
      obtain ⟨b, b', hb, hb', hblanks⟩ := Text.exists_eq_trim t
      refine ⟨b, Text.trim t, b', hb, hb', ?_, by simpa using h⟩
      rw [← hblanks]
      exact Utf8.eq_encode_of_decode? ht
  · rintro ⟨b, word, b', hb, hb', rfl, hword⟩
    simp only [agrees, Utf8.decode?_encode, Text.trim_append hb hb', trim_of_map_toLower hword]
    simpa using hword

/-- The end of the input refuses. -/
theorem agrees_nil : agrees [] = false := by
  rw [agrees, show Utf8.decode? [] = some [] from Utf8.decode?_encode []]
  rfl

/-! ## Questions one after the other -/

section

variable {σ : Type} {console : Console (StateM σ)} {q : Question} {t t' : σ}

/-- A question that has been written waits for a line. -/
theorem confirm_of_written (h : console.write (Utf8.encode q.text) t = (true, t')) :
    confirm console q t = (agrees (console.readLine t').1, (console.readLine t').2) := by
  rw [confirm, bind_apply, h]
  rfl

/-- A question that has not been written reads nothing. -/
theorem confirm_of_not_written (h : console.write (Utf8.encode q.text) t = (false, t')) :
    confirm console q t = (false, t') := by
  rw [confirm, bind_apply, h]
  rfl

end

/-- What comes of a question if `line` is the next line of the input. -/
def Inquiry.reply (a : Inquiry) (line : Bytes) : Reply :=
  if a.fits then ⟨agrees line, a.octets⟩ else ⟨false, a.octets.take (a.room.getD 0)⟩

/-- A question that is written in full takes the next line; another one takes nothing. -/
theorem answer_eq (a : Inquiry) (input : Bytes) :
    answer a input = (a.reply ((lines input).headD []),
      if a.fits then (lines input).tail.flatten else input) := by
  have htake := takeLine_eq input
  cases hfits : a.fits with
  | true =>
    have hwritten : ∃ room, Terminal.console.write a.octets { input := input, room := a.room } =
        (true, { input := input, shown := a.octets, room := room }) := by
      obtain ⟨q, room⟩ := a
      cases room with
      | none => exact ⟨none, rfl⟩
      | some limit =>
        have hle : (Inquiry.mk q (some limit)).octets.length ≤ limit := of_decide_eq_true hfits
        refine ⟨some (limit - (Inquiry.mk q (some limit)).octets.length), ?_⟩
        simp [Terminal.console, hle, List.take_of_length_le hle]
    obtain ⟨room, hwritten⟩ := hwritten
    rw [answer, confirm_of_written hwritten, Inquiry.reply, if_pos hfits, if_pos rfl]
    change (Reply.mk (agrees (takeLine input).1) a.octets, (takeLine input).2) = _
    rw [htake]
  | false =>
    have hwritten : ∃ room, Terminal.console.write a.octets { input := input, room := a.room } =
        (false, { input := input, shown := a.octets.take (a.room.getD 0), room := room }) := by
      obtain ⟨q, room⟩ := a
      cases room with
      | none => cases hfits
      | some limit =>
        have hlt : ¬(Inquiry.mk q (some limit)).octets.length ≤ limit := of_decide_eq_false hfits
        refine ⟨some (limit - (Inquiry.mk q (some limit)).octets.length), ?_⟩
        simp [Terminal.console, hlt]
    obtain ⟨room, hwritten⟩ := hwritten
    rw [answer, confirm_of_not_written hwritten, Inquiry.reply, hfits]
    rfl

/-- The lines that a question leaves. -/
theorem lines_snd_answer (a : Inquiry) (input : Bytes) :
    lines (answer a input).2 = (lines input).drop (if a.fits then 1 else 0) := by
  rw [answer_eq]
  cases a.fits with
  | true => exact (lines_tail_flatten input).trans List.drop_one.symm
  | false => rfl

theorem interview_cons (a : Inquiry) (asks : List Inquiry) (input : Bytes) :
    interview (a :: asks) input =
      ((answer a input).1 :: (interview asks (answer a input).2).1,
        (interview asks (answer a input).2).2) := by
  rw [interview, List.mapM_cons]
  rfl

/-- Questions take as many lines as there are questions that are written in full. -/
theorem snd_interview (asks : List Inquiry) (input : Bytes) :
    (interview asks input).2 = ((lines input).drop (asks.countP Inquiry.fits)).flatten := by
  induction asks generalizing input with
  | nil => exact (flatten_lines input).symm
  | cons a asks ih =>
    rw [interview_cons, ih, lines_snd_answer, List.drop_drop, List.countP_cons, Nat.add_comm]

/-- What comes of a question is settled by the line with its number among those written in full. -/
theorem getElem?_interview (asks : List Inquiry) (input : Bytes) (i : Nat) :
    (interview asks input).1[i]? = asks[i]?.map fun a =>
      a.reply ((lines input)[(asks.take i).countP Inquiry.fits]?.getD []) := by
  induction asks generalizing input i with
  | nil => rfl
  | cons a asks ih =>
    rw [interview_cons]
    cases i with
    | zero =>
      rw [answer_eq]
      cases lines input <;> rfl
    | succ i =>
      rw [List.getElem?_cons_succ, List.getElem?_cons_succ, ih, lines_snd_answer, List.take_succ_cons,
        List.countP_cons]
      simp only [List.getElem?_drop, Nat.add_comm]

/-- Each question is decided by its own line of the input, however many questions are asked one after the
other and whatever their outputs take.  A question that can be written in full takes the next line, up to
and with its line feed or to the end of the input, and is agreed to exactly if that line is `y` or `yes`
in either case, with blanks around it.  A question that cannot be written in full shows what its output
takes of it, is refused and takes nothing.  So what comes of a question hangs on one line, the number of
which is that of the questions written in full in front of it; where there is no such line it is
refused. -/
theorem interview_by_lines (asks : List Inquiry) (input : Bytes) {i : Nat} {a : Inquiry}
    (ha : asks[i]? = some a) :
    (∀ ls, IsCut input ls ↔ ls = lines input) ∧
    ∃ (k : Nat) (reply : Reply), k = (asks.take i).countP Inquiry.fits ∧
      (interview asks input).1[i]? = some reply ∧
      (interview (asks.take i) input).2 = ((lines input).drop k).flatten ∧
      ((∀ limit ∈ a.room, a.octets.length ≤ limit) →
        reply.shown = a.octets ∧
        (reply.agreed = true ↔ ∃ line, (lines input)[k]? = some line ∧ IsConsent line) ∧
        (interview (asks.take (i + 1)) input).2 = ((lines input).drop (k + 1)).flatten) ∧
      (∀ limit ∈ a.room, limit < a.octets.length →
        reply = ⟨false, a.octets.take limit⟩ ∧
        (interview (asks.take (i + 1)) input).2 = ((lines input).drop k).flatten) ∧
      ∀ input', (lines input')[k]? = (lines input)[k]? →
        (interview asks input').1[i]? = some reply := by
  have hreply := fun input' => getElem?_interview asks input' i
  simp only [ha, Option.map_some] at hreply
  have hnext : (asks.take (i + 1)).countP Inquiry.fits =
      (asks.take i).countP Inquiry.fits + if a.fits then 1 else 0 := by
    rw [List.take_add_one, ha, List.countP_append]
    cases hfits : a.fits <;> simp [hfits]
  generalize hk : (asks.take i).countP Inquiry.fits = k at hreply hnext
  refine ⟨fun _ => isCut_iff, k, a.reply ((lines input)[k]?.getD []), rfl, hreply input, ?_, ?_, ?_, ?_⟩
  · rw [snd_interview, hk]
  · intro hroom
    have hfits : a.fits = true := by
      rw [Inquiry.fits, Option.all_eq_true]
      exact fun limit hlimit => decide_eq_true (hroom limit hlimit)
    rw [snd_interview, hnext, hfits, Inquiry.reply, if_pos hfits]
    refine ⟨rfl, ?_, rfl⟩
    cases (lines input)[k]? with
    | none => simp [agrees_nil]
    | some line => simp [agrees_iff]
  · intro limit hlimit hlt
    have hfits : a.fits = false := by
      rw [Inquiry.fits, hlimit]
      exact decide_eq_false (Nat.not_le_of_lt hlt)
    rw [snd_interview, hnext, hfits, Inquiry.reply, hfits, hlimit]
    exact ⟨rfl, rfl⟩
  · intro input' hline
    rw [hreply, hline]

/-- A line that is no text, a line that agrees, and an answer that is not ended. -/
def typed : Bytes := [0xFF, 10] ++ Utf8.encode " Yes\r\ny".toList

/-- Three questions, the second of which is cut off. -/
def inquiries : List Inquiry :=
  [⟨⟨"a".toList, "a.c".toList⟩, none⟩, ⟨⟨"b".toList, "b.c".toList⟩, some 3⟩,
    ⟨⟨"c".toList, "c.c".toList⟩, none⟩]

theorem interview_by_lines_inquiries :
    inquiries[2]? = some ⟨⟨"c".toList, "c.c".toList⟩, none⟩ ∧
      ∃ reply, (interview inquiries typed).1[2]? = some reply ∧ reply.agreed = true ∧
        (interview inquiries typed).2 = Utf8.encode "y".toList := by
  have hthird : inquiries[2]? = some ⟨⟨"c".toList, "c.c".toList⟩, none⟩ := rfl
  obtain ⟨-, k, reply, hk, hreply, -, hfull, -, -⟩ := interview_by_lines inquiries typed hthird
  obtain rfl : k = 1 := hk.trans (by decide +kernel)
  obtain ⟨-, hagreed, hleft⟩ := hfull nofun
  have hline : (lines typed)[1]? = some (Utf8.encode " Yes\r\n".toList) := by decide +kernel
  have hconsent : IsConsent (Utf8.encode " Yes\r\n".toList) :=
    ⟨[' '], "Yes".toList, "\r\n".toList, by decide, by decide, by decide, by decide⟩
  exact ⟨hthird, reply, hreply, hagreed.2 ⟨_, hline, hconsent⟩, hleft.trans (by decide +kernel)⟩

end Prompt

end BuildTargets
