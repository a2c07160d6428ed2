import BuildTargets.Text.Utf8

/-!
# Octets and what they spell

A character has one spelling: octets that are read as it are those that it is written with
(`eq_encodeChar_of_next`).  So octets that are a text are what that text is written with
(`eq_encode_of_decode?`), and they show to a reader as that text (`decodeLossy_of_decode?`).  In octets
that are no text a character of ASCII still stands for its own octet alone (`mem_of_mem_decodeLossy`).
-/

namespace BuildTargets.Utf8

variable {a b c d : UInt8} {s r : Bytes} {x : Char} {t : Text}

/-! ## Characters from octets -/

/-- The code point of a character that is put together from bits. -/
theorem toNat_ofNat {n : Nat} (h : n < 0xD800 ∨ 0xDFFF < n ∧ n < 0x110000) :
    (Char.ofNat n).toNat = n := by
  rw [Char.ofNat, dif_pos h]
  rfl

theorem ofNat_eq {n : Nat} (h : n = a.toNat) : UInt8.ofNat n = a := by
  rw [h, UInt8.ofNat_toNat]

theorem isTail_iff : isTail b = true ↔ 0x80 ≤ b.toNat ∧ b.toNat ≤ 0xBF := by
  simp [isTail]

/-- What may stand second continues the sequence, and keeps it within the code points of its length. -/
theorem of_isSecond (h : isSecond a b = true) :
    0x80 ≤ b.toNat ∧ b.toNat ≤ 0xBF ∧ (a.toNat = 0xE0 → 0xA0 ≤ b.toNat) ∧
      (a.toNat = 0xF0 → 0x90 ≤ b.toNat) ∧ (a.toNat = 0xED → b.toNat ≤ 0x9F) ∧
      (a.toNat = 0xF4 → b.toNat ≤ 0x8F) := by
  simp only [isSecond, Bool.and_eq_true, decide_eq_true_eq] at h
  obtain ⟨hlow, hhigh⟩ := h
  split at hlow <;> split at hhigh <;> (try split at hlow) <;> (try split at hhigh) <;> omega

/-- A character of ASCII is written with one octet. -/
theorem encodeChar_of_toNat_lt (hx : x.toNat < 0x80) : encodeChar x = [UInt8.ofNat x.toNat] := by
  simp only [encodeChar, if_pos hx]

/-- A character of one octet. -/
theorem encodeChar_one (ha : a.toNat < 0x80) : encodeChar (Char.ofNat a.toNat) = [a] := by
  have hx : (Char.ofNat a.toNat).toNat = a.toNat := toNat_ofNat (Or.inl (by omega))
  rw [encodeChar_of_toNat_lt (by omega), hx, ofNat_eq rfl]

/-- A character of two octets. -/
theorem encodeChar_two (ha : ¬a.toNat < 0xC2) (ha' : a.toNat < 0xE0) (hb : isTail b = true) :
    encodeChar (Char.ofNat (a.toNat % 32 * 64 + tailBits b)) = [a, b] := by
  obtain ⟨hb, hb'⟩ := isTail_iff.1 hb
  simp only [tailBits]
  generalize hn : a.toNat % 32 * 64 + b.toNat % 64 = n
  have hx : (Char.ofNat n).toNat = n := toNat_ofNat (Or.inl (by omega))
  simp only [encodeChar, hx]
  have h₁ : UInt8.ofNat (0xC0 + n / 64) = a := ofNat_eq (by omega)
  have h₂ : UInt8.ofNat (0x80 + n % 64) = b := ofNat_eq (by omega)
  rw [if_neg (by omega), if_pos (by omega), h₁, h₂]

/-- A character of three octets. -/
theorem encodeChar_three (ha : ¬a.toNat < 0xE0) (ha' : a.toNat < 0xF0) (hb : isSecond a b = true)
    (hc : isTail c = true) :
    encodeChar (Char.ofNat (a.toNat % 16 * 4096 + tailBits b * 64 + tailBits c)) = [a, b, c] := by
  obtain ⟨hb, hb', hlow, -, hhigh, -⟩ := of_isSecond hb
  obtain ⟨hc, hc'⟩ := isTail_iff.1 hc
  simp only [tailBits]
  generalize hn : a.toNat % 16 * 4096 + b.toNat % 64 * 64 + c.toNat % 64 = n
  have hx : (Char.ofNat n).toNat = n := toNat_ofNat (by omega)
  simp only [encodeChar, hx]
  have h₁ : UInt8.ofNat (0xE0 + n / 4096) = a := ofNat_eq (by omega)
  have h₂ : UInt8.ofNat (0x80 + n / 64 % 64) = b := ofNat_eq (by omega)
  have h₃ : UInt8.ofNat (0x80 + n % 64) = c := ofNat_eq (by omega)
  rw [if_neg (by omega), if_neg (by omega), if_pos (by omega), h₁, h₂, h₃]

/-- A character of four octets. -/
theorem encodeChar_four (ha : ¬a.toNat < 0xF0) (ha' : a.toNat < 0xF5) (hb : isSecond a b = true)
    (hc : isTail c = true) (hd : isTail d = true) :
    encodeChar (Char.ofNat (a.toNat % 8 * 262144 + tailBits b * 4096 + tailBits c * 64
      + tailBits d)) = [a, b, c, d] := by
  obtain ⟨hb, hb', -, hlow, -, hhigh⟩ := of_isSecond hb
  obtain ⟨hc, hc'⟩ := isTail_iff.1 hc
  obtain ⟨hd, hd'⟩ := isTail_iff.1 hd
  simp only [tailBits]
  generalize hn : a.toNat % 8 * 262144 + b.toNat % 64 * 4096 + c.toNat % 64 * 64 + d.toNat % 64 = n
  have hx : (Char.ofNat n).toNat = n := toNat_ofNat (by omega)
  simp only [encodeChar, hx]
  have h₁ : UInt8.ofNat (0xF0 + n / 262144) = a := ofNat_eq (by omega)
  have h₂ : UInt8.ofNat (0x80 + n / 4096 % 64) = b := ofNat_eq (by omega)
  have h₃ : UInt8.ofNat (0x80 + n / 64 % 64) = c := ofNat_eq (by omega)
  have h₄ : UInt8.ofNat (0x80 + n % 64) = d := ofNat_eq (by omega)
  rw [if_neg (by omega), if_neg (by omega), if_neg (by omega), h₁, h₂, h₃, h₄]

/-- Octets that are read as a character are those that it is written with. -/
theorem eq_encodeChar_of_next (h : next a s = (some x, r)) : a :: s = encodeChar x ++ r := by
  revert h
  fun_cases next a s with
  | case1 _ ha =>
    rintro ⟨⟩
    rw [encodeChar_one ha]
    rfl
  | case3 _ hlow hhigh _ _ hb =>
    rintro ⟨⟩
    rw [encodeChar_two hlow hhigh hb]
    rfl
  | case6 _ _ hlow hhigh _ hb _ _ hc =>
    rintro ⟨⟩
    rw [encodeChar_three hlow hhigh hb hc]
    rfl
  | case11 _ _ _ hlow hhigh _ hb _ hc _ _ hd =>
    rintro ⟨⟩
    rw [encodeChar_four hlow hhigh hb hc hd]
    rfl
  | _ => rintro ⟨⟩

/-! ## Texts from octets -/

/-- Octets that are a text are what that text is written with. -/
theorem eq_encode_of_decode? (h : decode? s = some t) : s = encode t := by
  rw [decode?] at h
  fun_induction read s generalizing t with
  | case1 =>
    cases h
    rfl
  | case2 a s ih =>
    rw [List.mapM_cons] at h
    obtain ⟨x, hx, h⟩ := Option.bind_eq_some_iff.1 h
    obtain ⟨t, ht, h⟩ := Option.bind_eq_some_iff.1 h
    cases h
    have hnext : next a s = (some x, (next a s).2) := Prod.ext hx rfl
    rw [eq_encodeChar_of_next hnext, encode, List.flatMap_cons, ← encode, ← ih ht]

/-- Octets that are a text show as that text. -/
theorem decodeLossy_of_decode? (h : decode? s = some t) : decodeLossy s = t := by
  rw [eq_encode_of_decode? h, decodeLossy_encode]

/-- A character of ASCII is read off its own octet, whether the others are refused or not. -/
theorem eq_of_next_of_toNat_lt (h : ((next a s).1.getD '\uFFFD') = x) (hx : x.toNat < 0x80) :
    a = UInt8.ofNat x.toNat ∧ (next a s).2 = s := by
  cases hnext : (next a s).1 with
  | none =>
    rw [hnext] at h
    subst h
    exact absurd hx (by decide)
  | some y =>
    rw [hnext] at h
    obtain rfl : y = x := h
    have hspelled : a :: s = encodeChar y ++ (next a s).2 :=
      eq_encodeChar_of_next (Prod.ext hnext rfl)
    rw [encodeChar_of_toNat_lt hx] at hspelled
    exact ⟨(List.cons.inj hspelled).1, (List.cons.inj hspelled).2.symm⟩

theorem decodeLossy_cons (a : UInt8) (s : Bytes) :
    decodeLossy (a :: s) = (next a s).1.getD '\uFFFD' :: decodeLossy (next a s).2 := by
  rw [decodeLossy, read, List.map_cons]
  rfl

theorem decodeLossy_nil : decodeLossy [] = [] := by
  rw [decodeLossy, read]
  rfl

/-- The octets left behind a character were there before. -/
theorem mem_of_mem_next (h : b ∈ (next a s).2) : b ∈ s := by
  revert h
  fun_cases next a s <;> simp +contextual

/-- Where a character of ASCII shows, its octet stands. -/
theorem mem_of_mem_decodeLossy (h : x ∈ decodeLossy s) (hx : x.toNat < 0x80) :
    UInt8.ofNat x.toNat ∈ s := by
  fun_induction read s with
  | case1 =>
    rw [decodeLossy_nil] at h
    cases h
  | case2 a s ih =>
    rw [decodeLossy_cons] at h
    rcases List.mem_cons.1 h with h | h
    · rw [(eq_of_next_of_toNat_lt h.symm hx).1]
      exact List.mem_cons_self
    · exact List.mem_cons_of_mem a (mem_of_mem_next (ih h))

/-- Octets that show as a text of ASCII are what that text is written with. -/
theorem eq_encode_of_decodeLossy (h : decodeLossy s = t) (ht : ∀ x ∈ t, x.toNat < 0x80) :
    s = encode t := by
  fun_induction read s generalizing t with
  | case1 =>
    rw [← h, decodeLossy_nil]
    rfl
  | case2 a s ih =>
    rw [decodeLossy_cons] at h
    cases t with
    | nil => cases h
    | cons x t =>
      obtain ⟨hx, ht⟩ := List.forall_mem_cons.1 ht
      obtain ⟨hfirst, hrest⟩ := List.cons.inj h
      obtain ⟨rfl, hs⟩ := eq_of_next_of_toNat_lt hfirst hx
      rw [encode, List.flatMap_cons, encodeChar_of_toNat_lt hx, ← encode, ← ih hrest ht, hs]
      rfl

end BuildTargets.Utf8
