import TypedJson.DecodeError
import TypedJson.Json.Quoted.Lemmas

/-!
# The text of an error identifies its place

The text of a path is read from its start in one way only.  An accessor begins with a dot or a
bracket and says by its second character which form it has; a bare key ends where a character comes
that no identifier has, an index at its bracket, and a quoted key at its closing quote.  What
follows an accessor is another one or the colon of the error, and neither can be taken for a part
of it:

    p.text ++ ":" ++ r = q.text ++ ":" ++ s → p = q ∧ r = s               (Path.text_append_inj)

whatever characters the keys and the reasons `r` and `s` have.
-/

namespace TypedJson

/-! ## Up to the first character of another class -/

/-- The text is empty or begins with a character that is not of the class. -/
def StartsOutside (p : Char → Bool) (s : List Char) : Prop := ∀ c ∈ s.head?, p c = false

theorem startsOutside_cons {p : Char → Bool} {c : Char} (h : p c = false) (s : List Char) :
    StartsOutside p (c :: s) := by
  intro b hb
  cases hb
  exact h

/-- A text of one class ends where a character of another comes. -/
theorem append_inj_of_startsOutside {p : Char → Bool} {s t x y : List Char}
    (hs : ∀ c ∈ s, p c) (ht : ∀ c ∈ t, p c) (hx : StartsOutside p x) (hy : StartsOutside p y)
    (h : s ++ x = t ++ y) : s = t ∧ x = y := by
  induction s generalizing t with
  | nil =>
    cases t with
    | nil => exact ⟨rfl, h⟩
    | cons c t =>
      have hout := hx c (by rw [show x = c :: (t ++ y) from h]; rfl)
      rw [ht c List.mem_cons_self] at hout
      cases hout
  | cons c s ih =>
    cases t with
    | nil =>
      have hout := hy c (by rw [show y = c :: (s ++ x) from h.symm]; rfl)
      rw [hs c List.mem_cons_self] at hout
      cases hout
    | cons d t =>
      obtain ⟨rfl, htail⟩ := List.cons.inj h
      obtain ⟨rfl, hrest⟩ := ih (fun b hb => hs b (List.mem_cons_of_mem _ hb))
        (fun b hb => ht b (List.mem_cons_of_mem _ hb)) htail
      exact ⟨rfl, hrest⟩

/-! ## Digits and identifiers -/

theorem isDigit_of_mem_toDigits (i : Nat) : ∀ c ∈ Nat.toDigits 10 i, c.isDigit := by
  intro c hc
  exact Nat.isDigit_of_mem_toDigits (by decide) (by decide) hc

theorem toDigits_append_inj {i j : Nat} {x y : List Char}
    (h : Nat.toDigits 10 i ++ ']' :: x = Nat.toDigits 10 j ++ ']' :: y) : i = j ∧ x = y := by
  obtain ⟨hdigits, hrest⟩ := append_inj_of_startsOutside (isDigit_of_mem_toDigits i)
    (isDigit_of_mem_toDigits j) (startsOutside_cons rfl x) (startsOutside_cons rfl y) h
  have hvalue : i = j := by
    rw [← @Nat.ofDigitChars_ten_toDigits i, hdigits, Nat.ofDigitChars_ten_toDigits]
  exact ⟨hvalue, (List.cons.inj hrest).2⟩

/-- A quoted key begins with a quote, so it is not a text of a class that has none. -/
theorem chars_append_ne {p : Char → Bool} {key : String} {s x y : List Char} (hne : s ≠ [])
    (hs : ∀ c ∈ s, p c) (hquote : p '"' = false) : Quoted.chars key ++ x ≠ s ++ y := by
  intro h
  obtain ⟨c, rest, rfl⟩ := List.exists_cons_of_ne_nil hne
  obtain ⟨rfl, -⟩ := List.cons.inj h
  rw [hs _ List.mem_cons_self] at hquote
  cases hquote

/-- A quoted key begins with a quote, an index with a digit. -/
theorem chars_append_ne_toDigits_append {key : String} {i : Nat} {x y : List Char} :
    Quoted.chars key ++ x ≠ Nat.toDigits 10 i ++ y :=
  chars_append_ne Nat.toDigits_ne_nil (isDigit_of_mem_toDigits i) rfl

theorem isIdentifierRest_of_isBareKey {key : String} (h : isBareKey key) :
    ∀ c ∈ key.toList, isIdentifierRest c := by
  unfold isBareKey at h
  split at h
  · cases h
  · next c rest hkey =>
    obtain ⟨hc, hrest⟩ := Bool.and_eq_true_iff.1 h
    intro b hb
    rw [hkey] at hb
    rcases List.mem_cons.1 hb with rfl | hb
    · simp [isIdentifierRest, hc]
    · exact List.all_eq_true.1 hrest b hb

/-! ## Accessors -/

/-- The text is that of the accessor, in one of its three forms, and then `rest`. -/
inductive Accessor.Begins : Accessor → List Char → List Char → Prop where
  | bare {key : String} {rest : List Char} (h : isBareKey key) :
      Begins (.key key) ('.' :: (key.toList ++ rest)) rest
  | quoted {key : String} {rest : List Char} :
      Begins (.key key) ('[' :: (Quoted.chars key ++ ']' :: rest)) rest
  | index {i : Nat} {rest : List Char} :
      Begins (.index i) ('[' :: (Nat.toDigits 10 i ++ ']' :: rest)) rest

theorem Accessor.begins_text (a : Accessor) (rest : List Char) :
    a.Begins (a.text.toList ++ rest) rest := by
  cases a with
  | key key =>
    by_cases h : isBareKey key
    · have hbare : (Accessor.key key).Begins _ rest := .bare h
      simpa [Accessor.text, h] using hbare
    · have hquoted : (Accessor.key key).Begins _ rest := .quoted
      simpa [Accessor.text, h, Quoted.quote] using hquoted
  | index i =>
    have hindex : (Accessor.index i).Begins _ rest := .index
    simpa [Accessor.text, Nat.toList_repr] using hindex

/-- A text begins with one accessor only, if what follows it does not go on as an identifier. -/
theorem Accessor.Begins.unique {a b : Accessor} {s x y : List Char} (ha : a.Begins s x)
    (hb : b.Begins s y) (hx : StartsOutside isIdentifierRest x)
    (hy : StartsOutside isIdentifierRest y) : a = b ∧ x = y := by
  generalize hst : s = t at hb
  cases ha with
  | bare hk =>
    cases hb with
    | bare hl =>
      obtain ⟨hkey, hrest⟩ := append_inj_of_startsOutside (isIdentifierRest_of_isBareKey hk)
        (isIdentifierRest_of_isBareKey hl) hx hy (List.cons.inj hst).2
      exact ⟨congrArg Accessor.key (String.toList_injective hkey), hrest⟩
    | quoted => cases (List.cons.inj hst).1
    | index => cases (List.cons.inj hst).1
  | quoted =>
    cases hb with
    | bare hl => cases (List.cons.inj hst).1
    | quoted =>
      obtain ⟨rfl, hrest⟩ := Quoted.chars_append_inj (List.cons.inj hst).2
      exact ⟨rfl, (List.cons.inj hrest).2⟩
    | index => exact absurd (List.cons.inj hst).2 chars_append_ne_toDigits_append
  | index =>
    cases hb with
    | bare hl => cases (List.cons.inj hst).1
    | quoted => exact absurd (List.cons.inj hst).2.symm chars_append_ne_toDigits_append
    | index =>
      obtain ⟨rfl, hrest⟩ := toDigits_append_inj (List.cons.inj hst).2
      exact ⟨rfl, hrest⟩

theorem Accessor.Begins.head {a : Accessor} {s x : List Char} (h : a.Begins s x) :
    ∃ c rest, s = c :: rest ∧ (c = '.' ∨ c = '[') := by
  cases h with
  | bare h => exact ⟨_, _, rfl, .inl rfl⟩
  | quoted => exact ⟨_, _, rfl, .inr rfl⟩
  | index => exact ⟨_, _, rfl, .inr rfl⟩

/-! ## Paths -/

namespace Path

theorem toList_text_cons (a : Accessor) (p : Path) (rest : List Char) :
    (Path.text (a :: p)).toList ++ rest = a.text.toList ++ (p.text.toList ++ rest) := by
  simp [text]

/-- What is left of an error's text after an accessor does not go on as an identifier. -/
theorem startsOutside_text (p : Path) (r : List Char) :
    StartsOutside isIdentifierRest (p.text.toList ++ ':' :: r) := by
  cases p with
  | nil => exact startsOutside_cons rfl r
  | cons a p =>
    rw [toList_text_cons]
    obtain ⟨c, rest, hs, rfl | rfl⟩ := (a.begins_text ((Path.text p).toList ++ ':' :: r)).head
    · rw [hs]
      exact startsOutside_cons rfl rest
    · rw [hs]
      exact startsOutside_cons rfl rest

/-- No accessor begins with the colon that ends a path. -/
theorem text_cons_ne_colon (a : Accessor) (p : Path) (r s : List Char) :
    (Path.text (a :: p)).toList ++ r ≠ ':' :: s := by
  intro h
  rw [toList_text_cons] at h
  obtain ⟨c, rest, hs, hc⟩ := (a.begins_text (p.text.toList ++ r)).head
  rw [hs] at h
  obtain ⟨rfl, -⟩ := List.cons.inj h
  rcases hc with hc | hc <;> cases hc

theorem text_append_inj {p q : Path} {r s : List Char}
    (h : p.text.toList ++ ':' :: r = q.text.toList ++ ':' :: s) : p = q ∧ r = s := by
  induction p generalizing q with
  | nil =>
    cases q with
    | nil => exact ⟨rfl, (List.cons.inj h).2⟩
    | cons b q => exact absurd h.symm (text_cons_ne_colon b q _ _)
  | cons a p ih =>
    cases q with
    | nil => exact absurd h (text_cons_ne_colon a p _ _)
    | cons b q =>
      rw [toList_text_cons, toList_text_cons] at h
      have hb := b.begins_text ((Path.text q).toList ++ ':' :: s)
      rw [← h] at hb
      obtain ⟨rfl, hrest⟩ := (a.begins_text ((Path.text p).toList ++ ':' :: r)).unique hb
        (startsOutside_text p r) (startsOutside_text q s)
      obtain ⟨rfl, hreason⟩ := ih hrest
      exact ⟨rfl, hreason⟩

end Path

/-! ## Errors -/

theorem errorText_eq_iff {p q : Path} {r s : String} :
    "at input" ++ p.text ++ ": " ++ r = "at input" ++ q.text ++ ": " ++ s ↔ p = q ∧ r = s := by
  constructor
  · intro h
    have hchars := congrArg String.toList h
    simp only [String.toList_append, List.append_assoc] at hchars
    obtain ⟨rfl, hreason⟩ := Path.text_append_inj (List.append_cancel_left hchars)
    exact ⟨rfl, String.toList_injective (List.cons.inj hreason).2⟩
  · rintro ⟨rfl, rfl⟩
    rfl

/-- **The text of an error identifies its place.**  Two errors have one text iff they have the same
path and the same reason in words.  So it is for every reason that could be given, and already the
text of a path is that of no other path. -/
theorem DecodeError.text_identifies_path :
    (∀ e e' : DecodeError, e.text = e'.text ↔ e.path = e'.path ∧ e.reason.text = e'.reason.text) ∧
    (∀ (p q : Path) (r s : String),
      "at input" ++ p.text ++ ": " ++ r = "at input" ++ q.text ++ ": " ++ s ↔ p = q ∧ r = s) ∧
    ∀ p q : Path, p.text = q.text ↔ p = q := by
  refine ⟨fun e e' => errorText_eq_iff, fun p q r s => errorText_eq_iff, fun p q => ?_⟩
  constructor
  · intro h
    have htext : "at input" ++ p.text ++ ": " ++ "" = "at input" ++ q.text ++ ": " ++ "" := by
      rw [h]
    exact (errorText_eq_iff.1 htext).1
  · rintro rfl
    rfl

end TypedJson
