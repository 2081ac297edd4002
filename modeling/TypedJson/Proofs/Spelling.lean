import TypedJson.Json.Printer
import TypedJson.Proofs.SyntaxTree
import TypedJson.Proofs.WholeNumeral

/-!
# The texts of a syntax tree

`Json.tokens` are the tokens of a syntax tree, members in the order in which they stand, strings
quoted.  A text spells the tree if it is these tokens with blanks before, between and after them
(`Json.Spells`); without any blanks it is the canonical text (`spells_render`).

A reader needs to know of the tokens ahead only how the next one begins: with blanks skipped, the
text goes on with that token (`Laid.skipBlanks`), and what comes after a value, being a comma or a
bracket, is no part of a numeral (`Laid.startsOutside`).
-/

namespace TypedJson

/-- The text is the tokens, with blanks before each of them and at the end. -/
inductive Laid : List (List Char) → List Char → Prop where
  | nil {blanks : List Char} (h : ∀ c ∈ blanks, Json.isBlank c) : Laid [] blanks
  | cons {blanks token s : List Char} {tokens : List (List Char)}
      (h : ∀ c ∈ blanks, Json.isBlank c) (hs : Laid tokens s) :
      Laid (token :: tokens) (blanks ++ (token ++ s))

namespace Json

mutual
/-- The tokens of a syntax tree. -/
def tokens : Json → List (List Char)
  | array vs => ['['] :: elementsTokens true vs
  | object ms => ['\x7b'] :: membersTokens true ms
  | v => [v.chars]

/-- The rest of an array, from its first element or from a later one, with the closing bracket. -/
def elementsTokens (first : Bool) : List Json → List (List Char)
  | [] => [[']']]
  | v :: vs => (if first then [] else [[',']]) ++ v.tokens ++ elementsTokens false vs

/-- The rest of an object, from its first member or from a later one, with the closing brace. -/
def membersTokens (first : Bool) : List (String × Json) → List (List Char)
  | [] => [['\x7d']]
  | (key, v) :: ms =>
    (if first then [] else [[',']]) ++ Quoted.chars key :: [':'] :: v.tokens ++
      membersTokens false ms
end

/-- The text is a way to write the tree: its tokens, with any blanks between them. -/
def Spells (v : Json) (text : String) : Prop := Laid v.tokens text.toList

/-! ## Canonical texts -/

theorem flatten_elementsTokens {vs : List Json} (h : ∀ v ∈ vs, v.tokens.flatten = v.chars)
    (first : Bool) : (elementsTokens first vs).flatten = elementsChars first vs := by
  induction vs generalizing first with
  | nil => rfl
  | cons v vs ih =>
    have hv := h v List.mem_cons_self
    have hvs := ih (fun w hw => h w (List.mem_cons_of_mem _ hw)) false
    rw [elementsTokens, elementsChars, List.flatten_append, List.flatten_append, hv, hvs]
    cases first with
    | true => rfl
    | false => rfl

theorem flatten_membersTokens {ms : List (String × Json)}
    (h : ∀ m ∈ ms, m.2.tokens.flatten = m.2.chars) (first : Bool) :
    (membersTokens first ms).flatten = membersChars first ms := by
  induction ms generalizing first with
  | nil => rfl
  | cons m ms ih =>
    obtain ⟨key, v⟩ := m
    have hv := h (key, v) List.mem_cons_self
    have hms := ih (fun m hm => h m (List.mem_cons_of_mem _ hm)) false
    rw [membersTokens, membersChars, List.flatten_append, List.flatten_append, List.flatten_cons,
      List.flatten_cons, hv, hms]
    cases first with
    | true => simp
    | false => simp

theorem flatten_tokens (v : Json) : v.tokens.flatten = v.chars := by
  induction v using Json.induction with
  | array vs ih => exact congrArg (List.cons '[') (flatten_elementsTokens ih true)
  | object ms ih =>
    exact congrArg (List.cons '\x7b') (flatten_membersTokens (fun m hm => ih m.1 m.2 hm) true)
  | boolean b =>
    cases b with
    | true => rfl
    | false => rfl
  | _ => exact List.flatten_singleton

end Json

namespace Laid

theorem done : Laid [] [] := .nil fun _ h => by cases h

theorem token (token : List Char) {tokens : List (List Char)} {s : List Char}
    (h : Laid tokens s) : Laid (token :: tokens) (token ++ s) :=
  @Laid.cons [] token s tokens (fun _ h => by cases h) h

theorem blank {c : Char} {tokens : List (List Char)} {s : List Char} (hc : Json.isBlank c)
    (h : Laid tokens s) : Laid tokens (c :: s) := by
  cases h with
  | nil h => exact .nil (List.forall_mem_cons.2 ⟨hc, h⟩)
  | cons h hs => exact .cons (List.forall_mem_cons.2 ⟨hc, h⟩) hs

theorem flatten (tokens : List (List Char)) : Laid tokens tokens.flatten := by
  induction tokens with
  | nil => exact done
  | cons token tokens ih => exact ih.token token

end Laid

theorem Json.spells_render (v : Json) : v.Spells v.render := by
  have hlaid := Laid.flatten v.tokens
  rw [v.flatten_tokens] at hlaid
  rwa [Json.Spells, Json.render, String.toList_ofList]

/-! ## The token ahead -/

namespace Json

theorem skipBlanks_append {blanks : List Char} (h : ∀ c ∈ blanks, isBlank c) (s : List Char) :
    skipBlanks (blanks ++ s) = skipBlanks s :=
  List.dropWhile_append_of_pos h

theorem skipBlanks_cons {c : Char} (h : isBlank c = false) (s : List Char) :
    skipBlanks (c :: s) = c :: s :=
  List.dropWhile_cons_of_neg (by simp [h])

theorem not_continues_of_isBlank {c : Char} (h : isBlank c) : Numeral.continues c = false := by
  simp only [isBlank, Bool.or_eq_true, beq_iff_eq] at h
  rcases h with ((rfl | rfl) | rfl) | rfl
  all_goals rfl

theorem isBlank_eq_false {c : Char} (h : c = '-' ∨ c.isDigit) : isBlank c = false := by
  rcases h with rfl | h
  · rfl
  · refine Bool.eq_false_iff.2 fun hblank => ?_
    rw [(Numeral.not_continues (not_continues_of_isBlank hblank)).1] at h
    cases h

end Json

namespace Laid

/-- Blanks skipped, the text goes on with its first token. -/
theorem skipBlanks {c : Char} {token s : List Char} {tokens : List (List Char)}
    (h : Laid ((c :: token) :: tokens) s) (hc : Json.isBlank c = false) :
    ∃ rest, Json.skipBlanks s = c :: (token ++ rest) ∧ Laid tokens rest ∧
      token.length + rest.length < s.length := by
  cases h with
  | @cons blanks _ rest _ hblanks hrest =>
    refine ⟨rest, ?_, hrest, ?_⟩
    · rw [Json.skipBlanks_append hblanks, List.cons_append, Json.skipBlanks_cons hc]
    · simp only [List.length_append, List.length_cons]
      omega

/-- Nothing but blanks is left. -/
theorem skipBlanks_eq_nil {s : List Char} (h : Laid [] s) : Json.skipBlanks s = [] := by
  cases h with
  | nil h =>
    have hskip := Json.skipBlanks_append h []
    rwa [List.append_nil] at hskip

/-- What is ahead, if anything, is a comma or the end of an array or an object. -/
def Ahead (tokens : List (List Char)) : Prop :=
  ∀ token ∈ tokens.head?, token = [','] ∨ token = [']'] ∨ token = ['\x7d']

theorem ahead_elementsTokens (vs : List Json) (more : List (List Char)) :
    Ahead (Json.elementsTokens false vs ++ more) := by
  intro token htoken
  cases vs with
  | nil =>
    cases htoken
    exact .inr (.inl rfl)
  | cons v vs =>
    cases htoken
    exact .inl rfl

theorem ahead_membersTokens (ms : List (String × Json)) (more : List (List Char)) :
    Ahead (Json.membersTokens false ms ++ more) := by
  intro token htoken
  cases ms with
  | nil =>
    cases htoken
    exact .inr (.inr rfl)
  | cons m ms =>
    cases htoken
    exact .inl rfl

/-- What comes after a value does not go on as a numeral. -/
theorem startsOutside {tokens : List (List Char)} {s : List Char} (h : Laid tokens s)
    (hahead : Ahead tokens) : StartsOutside Numeral.continues s := by
  cases h with
  | nil hblanks =>
    intro c hc
    exact Json.not_continues_of_isBlank (hblanks c (List.mem_of_mem_head? hc))
  | @cons blanks token rest tokens hblanks hrest =>
    cases blanks with
    | nil =>
      rcases hahead token rfl with rfl | rfl | rfl
      all_goals exact startsOutside_cons rfl _
    | cons c blanks =>
      exact startsOutside_cons
        (Json.not_continues_of_isBlank (hblanks c List.mem_cons_self)) _

end Laid

/-- A tree of whole numbers begins with a token that is no blank and closes nothing. -/
theorem Json.Plain.tokens_eq_cons {levels : Nat} {v : Json} (h : v.Plain levels) :
    ∃ c token tokens, v.tokens = (c :: token) :: tokens ∧ Json.isBlank c = false ∧ c ≠ ']' := by
  cases h with
  | null => exact ⟨_, _, _, rfl, rfl, by decide⟩
  | boolean _ b =>
    cases b with
    | true => exact ⟨_, _, _, rfl, rfl, by decide⟩
    | false => exact ⟨_, _, _, rfl, rfl, by decide⟩
  | whole _ value inRange =>
    obtain ⟨c, cs, hchars, hc⟩ := Numeral.chars_whole_eq_cons value inRange
    refine ⟨c, cs, [], by rw [← hchars]; rfl, ?_, ?_⟩
    · exact isBlank_eq_false hc
    · rintro rfl
      rcases hc with hc | hc
      · cases hc
      · cases hc
  | string => exact ⟨_, _, _, rfl, rfl, by decide⟩
  | array => exact ⟨_, _, _, rfl, rfl, by decide⟩
  | object => exact ⟨_, _, _, rfl, rfl, by decide⟩

end TypedJson
