import BuildTargets.Text.Basic

/-!
# UTF-8

Octets and characters. Reading takes one well-formed sequence after the other; where there is none,
it sets aside the longest beginning of one, or a single octet. A strict reader then refuses the
octets, a lenient one shows `U+FFFD` for each part set aside. What is written from a text is read
back as that text (`decode?_encode`).
-/

namespace BuildTargets.Utf8

/-- The octets of a character: one to four, by the size of its code point. -/
def encodeChar (c : Char) : Bytes :=
  let n := c.toNat
  if n < 0x80 then
    [UInt8.ofNat n]
  else if n < 0x800 then
    [UInt8.ofNat (0xC0 + n / 64), UInt8.ofNat (0x80 + n % 64)]
  else if n < 0x10000 then
    [UInt8.ofNat (0xE0 + n / 4096), UInt8.ofNat (0x80 + n / 64 % 64), UInt8.ofNat (0x80 + n % 64)]
  else
    [UInt8.ofNat (0xF0 + n / 262144), UInt8.ofNat (0x80 + n / 4096 % 64),
      UInt8.ofNat (0x80 + n / 64 % 64), UInt8.ofNat (0x80 + n % 64)]

/-- The octets of a text. -/
def encode (t : Text) : Bytes := t.flatMap encodeChar

/-- Whether an octet continues a sequence. -/
def isTail (b : UInt8) : Bool := 0x80 ≤ b.toNat && b.toNat ≤ 0xBF

/-- The six bits that a continuing octet carries. -/
def tailBits (b : UInt8) : Nat := b.toNat % 64

/-- Whether `b` may stand second behind the first octet `a` of a sequence of three or four: the
narrower ranges keep out long spellings, surrogates and numbers above `U+10FFFF`. -/
def isSecond (a b : UInt8) : Bool :=
  let low := if a.toNat = 0xE0 then 0xA0 else if a.toNat = 0xF0 then 0x90 else 0x80
  let high := if a.toNat = 0xED then 0x9F else if a.toNat = 0xF4 then 0x8F else 0xBF
  low ≤ b.toNat && b.toNat ≤ high

/-- The character that starts with octet `a`, or `none` if none does, and the octets left. -/
def next (a : UInt8) (s : Bytes) : Option Char × Bytes :=
  if a.toNat < 0x80 then (some (Char.ofNat a.toNat), s)
  else if a.toNat < 0xC2 then (none, s)
  else if a.toNat < 0xE0 then
    match s with
    | b :: s₁ =>
      if isTail b then (some (Char.ofNat (a.toNat % 32 * 64 + tailBits b)), s₁) else (none, s)
    | [] => (none, [])
  else if a.toNat < 0xF0 then
    match s with
    | b :: s₁ =>
      if isSecond a b then
        match s₁ with
        | c :: s₂ =>
          if isTail c then
            (some (Char.ofNat (a.toNat % 16 * 4096 + tailBits b * 64 + tailBits c)), s₂)
          else (none, s₁)
        | [] => (none, [])
      else (none, s)
    | [] => (none, [])
  else if a.toNat < 0xF5 then
    match s with
    | b :: s₁ =>
      if isSecond a b then
        match s₁ with
        | c :: s₂ =>
          if isTail c then
            match s₂ with
            | d :: s₃ =>
              if isTail d then
                (some (Char.ofNat (a.toNat % 8 * 262144 + tailBits b * 4096 + tailBits c * 64
                  + tailBits d)), s₃)
              else (none, s₂)
            | [] => (none, [])
          else (none, s₁)
        | [] => (none, [])
      else (none, s)
    | [] => (none, [])
  else (none, s)

theorem next_length (a : UInt8) (s : Bytes) : (next a s).2.length ≤ s.length := by
  unfold next
  repeat' split
  all_goals simp
  all_goals omega

/-- The characters of the octets, `none` standing for each part that is no character. -/
def read : Bytes → List (Option Char)
  | [] => []
  | a :: s => (next a s).1 :: read (next a s).2
termination_by s => s.length
decreasing_by
  have := next_length a s
  simp only [List.length_cons]
  omega

/-- The text that the octets spell, if they are well formed. -/
def decode? (s : Bytes) : Option Text := (read s).mapM id

/-- The text that the octets spell, with `U+FFFD` for each ill-formed part. -/
def decodeLossy (s : Bytes) : Text := (read s).map (·.getD '\uFFFD')

theorem toNat_ofNat_of_lt {n : Nat} (h : n < 256) : (UInt8.ofNat n).toNat = n := by
  simp [Nat.mod_eq_of_lt h]

theorem next_encodeChar (c : Char) (s : Bytes) :
    ∃ a r, encodeChar c = a :: r ∧ next a (r ++ s) = (some c, s) := by
  have hc : c.toNat < 0xD800 ∨ 0xDFFF < c.toNat ∧ c.toNat < 0x110000 := c.valid
  have hn : Char.ofNat c.toNat = c := Char.ofNat_toNat c
  unfold encodeChar
  simp only
  split
  · next h =>
    refine ⟨_, _, rfl, ?_⟩
    have ha : (UInt8.ofNat c.toNat).toNat = c.toNat := toNat_ofNat_of_lt (by omega)
    simp [next, ha, h, hn]
  · split
    · next h₀ h =>
      refine ⟨_, _, rfl, ?_⟩
      have ha := toNat_ofNat_of_lt (n := 0xC0 + c.toNat / 64) (by omega)
      have hb := toNat_ofNat_of_lt (n := 0x80 + c.toNat % 64) (by omega)
      have hval : (0xC0 + c.toNat / 64) % 32 * 64 + (0x80 + c.toNat % 64) % 64 = c.toNat := by omega
      simp only [next, isTail, tailBits, List.cons_append, List.nil_append, ha, hb, hval, hn]
      simp only [show ¬(0xC0 + c.toNat / 64 < 0x80) by omega,
        show ¬(0xC0 + c.toNat / 64 < 0xC2) by omega, show 0xC0 + c.toNat / 64 < 0xE0 by omega,
        show (0x80 ≤ 0x80 + c.toNat % 64) by omega, show (0x80 + c.toNat % 64 ≤ 0xBF) by omega]
      simp
    · split
      · next h₁ h₀ h =>
        refine ⟨_, _, rfl, ?_⟩
        have ha := toNat_ofNat_of_lt (n := 0xE0 + c.toNat / 4096) (by omega)
        have hb := toNat_ofNat_of_lt (n := 0x80 + c.toNat / 64 % 64) (by omega)
        have hd := toNat_ofNat_of_lt (n := 0x80 + c.toNat % 64) (by omega)
        have hval : (0xE0 + c.toNat / 4096) % 16 * 4096 + (0x80 + c.toNat / 64 % 64) % 64 * 64
            + (0x80 + c.toNat % 64) % 64 = c.toNat := by omega
        have hs : isSecond (UInt8.ofNat (0xE0 + c.toNat / 4096))
            (UInt8.ofNat (0x80 + c.toNat / 64 % 64)) = true := by
          simp only [isSecond, ha, hb, Bool.and_eq_true, decide_eq_true_eq]
          constructor <;> (repeat' split) <;> omega
        have ht : isTail (UInt8.ofNat (0x80 + c.toNat % 64)) = true := by
          simp only [isTail, hd, Bool.and_eq_true, decide_eq_true_eq]
          omega
        simp only [next, tailBits, List.cons_append, List.nil_append, hs, ht, ha, hb, hd, hval, hn]
        simp only [show ¬(0xE0 + c.toNat / 4096 < 0x80) by omega,
          show ¬(0xE0 + c.toNat / 4096 < 0xC2) by omega,
          show ¬(0xE0 + c.toNat / 4096 < 0xE0) by omega,
          show 0xE0 + c.toNat / 4096 < 0xF0 by omega]
        simp
      · next h₂ h₁ h₀ =>
        refine ⟨_, _, rfl, ?_⟩
        have ha := toNat_ofNat_of_lt (n := 0xF0 + c.toNat / 262144) (by omega)
        have hb := toNat_ofNat_of_lt (n := 0x80 + c.toNat / 4096 % 64) (by omega)
        have hd := toNat_ofNat_of_lt (n := 0x80 + c.toNat / 64 % 64) (by omega)
        have he := toNat_ofNat_of_lt (n := 0x80 + c.toNat % 64) (by omega)
        have hval : (0xF0 + c.toNat / 262144) % 8 * 262144 + (0x80 + c.toNat / 4096 % 64) % 64 * 4096
            + (0x80 + c.toNat / 64 % 64) % 64 * 64 + (0x80 + c.toNat % 64) % 64 = c.toNat := by omega
        have hs : isSecond (UInt8.ofNat (0xF0 + c.toNat / 262144))
            (UInt8.ofNat (0x80 + c.toNat / 4096 % 64)) = true := by
          simp only [isSecond, ha, hb, Bool.and_eq_true, decide_eq_true_eq]
          constructor <;> (repeat' split) <;> omega
        have ht : isTail (UInt8.ofNat (0x80 + c.toNat / 64 % 64)) = true := by
          simp only [isTail, hd, Bool.and_eq_true, decide_eq_true_eq]
          omega
        have hu : isTail (UInt8.ofNat (0x80 + c.toNat % 64)) = true := by
          simp only [isTail, he, Bool.and_eq_true, decide_eq_true_eq]
          omega
        simp only [next, tailBits, List.cons_append, List.nil_append, hs, ht, hu, ha, hb, hd, he,
          hval, hn]
        simp only [show ¬(0xF0 + c.toNat / 262144 < 0x80) by omega,
          show ¬(0xF0 + c.toNat / 262144 < 0xC2) by omega,
          show ¬(0xF0 + c.toNat / 262144 < 0xE0) by omega,
          show ¬(0xF0 + c.toNat / 262144 < 0xF0) by omega,
          show 0xF0 + c.toNat / 262144 < 0xF5 by omega]
        simp

theorem read_encode (t : Text) : read (encode t) = t.map some := by
  induction t with
  | nil => simp [encode, read]
  | cons c t ih =>
    obtain ⟨a, r, hc, hn⟩ := next_encodeChar c (encode t)
    have : encode (c :: t) = a :: (r ++ encode t) := by
      rw [encode, List.flatMap_cons, hc]; rfl
    rw [this, read, hn]
    simp [ih]

/-- What is written is read back. -/
@[simp] theorem decode?_encode (t : Text) : decode? (encode t) = some t := by
  rw [decode?, read_encode]
  induction t with
  | nil => rfl
  | cons c t ih => simp [List.mapM_cons] at ih ⊢; simp [ih]

@[simp] theorem decodeLossy_encode (t : Text) : decodeLossy (encode t) = t := by
  simp [decodeLossy, read_encode, Function.comp_def]

end BuildTargets.Utf8
