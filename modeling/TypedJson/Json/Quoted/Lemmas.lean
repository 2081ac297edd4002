import TypedJson.Json.Quoted

/-!
# Reading takes back what writing produces

`read_chars`: after the opening quote, the written form of a string is read up to its closing quote
and gives the string, whatever text follows.  So a quoted string ends in one place only, and two
strings with one written form are the same.
-/

namespace TypedJson

namespace Quoted

/-! ## One character -/

theorem body_letter {c x : Char} (h : unescapeLetter? c = some x) (rest : List Char) :
    body ('\\' :: c :: rest) = push x (body rest) := by
  have hu : c ≠ 'u' := by rintro rfl; simp [unescapeLetter?] at h
  conv => lhs; unfold body
  split <;> grind

theorem body_plain {c : Char} (hq : c ≠ '"') (hb : c ≠ '\\') (hc : ¬ c.toNat < 0x20)
    (rest : List Char) : body (c :: rest) = push c (body rest) := by
  conv => lhs; unfold body
  split <;> grind

theorem body_code {a b c d : Char} {code : Nat} (h : hexCode? a b c d = some code)
    (low : isLowSurrogate code = false) (high : isHighSurrogate code = false)
    (rest : List Char) :
    body ('\\' :: 'u' :: a :: b :: c :: d :: rest) = push (Char.ofNat code) (body rest) := by
  conv => lhs; unfold body
  simp [h, low, high]

/-- The code of a character below U+0020 is read back from its two digits. -/
theorem hexCode?_digitChar (n : Nat) (h : n < 0x20) :
    hexCode? '0' '0' (Nat.digitChar (n / 16)) (Nat.digitChar (n % 16)) = some n := by
  revert n; decide

theorem body_escapeChar (c : Char) (rest : List Char) :
    body (escapeChar c ++ rest) = push c (body rest) := by
  unfold escapeChar
  split
  · subst c; exact body_letter rfl rest
  split
  · subst c; exact body_letter rfl rest
  split
  · subst c; exact body_letter rfl rest
  split
  · subst c; exact body_letter rfl rest
  split
  · subst c; exact body_letter rfl rest
  split
  · subst c; exact body_letter rfl rest
  split
  · subst c; exact body_letter rfl rest
  split
  · rename_i h
    have hcode := body_code (hexCode?_digitChar c.toNat h)
      (by simp only [isLowSurrogate, Bool.and_eq_false_imp, decide_eq_true_eq]; omega)
      (by simp only [isHighSurrogate, Bool.and_eq_false_imp, decide_eq_true_eq]; omega) rest
    rwa [Char.ofNat_toNat] at hcode
  · exact body_plain ‹_› ‹_› ‹_› rest

/-! ## Strings -/

theorem body_escape (s rest : List Char) : body (escape s ++ '"' :: rest) = .ok (s, rest) := by
  induction s with
  | nil => rfl
  | cons c s ih => rw [escape, List.append_assoc, body_escapeChar, ih]; rfl

/-- The written form of a string is read back, and only it is taken from the text. -/
theorem read_chars (s : String) (rest : List Char) :
    read ((chars s).tail ++ rest) = .ok (s, rest) := by
  simp [read, chars, body_escape]

/-- Two written forms, each followed by some text, are the same only for the same string. -/
theorem chars_append_inj {s t : String} {rest rest' : List Char}
    (h : chars s ++ rest = chars t ++ rest') : s = t ∧ rest = rest' := by
  have hs := read_chars s rest
  have ht := read_chars t rest'
  have hst : (chars s).tail ++ rest = (chars t).tail ++ rest' := by
    simpa [chars] using h
  rw [hst, ht] at hs
  simpa [eq_comm] using hs

end Quoted

end TypedJson
