import TypedJson.Proofs.Spelling

/-!
# Reading takes a tree from each of its texts

The reader follows the tokens of a tree one by one: what it makes of a text that begins with the
tree is the value of the tree, and what it leaves is a text of the tokens after it
(`Json.ReadsBack`).  For an array or an object this is an induction on what is in it, in step with
the turns of the reader, and for the whole tree one on its levels (`Plain.readsBack`).

So every text of a tree is read as its value (`Json.read_of_spells`), whatever the blanks, and
decoding the one is decoding the other (`Decoder.decodeText_of_spells`).
-/

namespace TypedJson

namespace Json

/-- From a text that begins with the tree the reader makes the value of the tree, and leaves the
text of the tokens ahead. -/
def ReadsBack (read : List Char → Reading Json) (v : Json) : Prop :=
  ∀ (more : List (List Char)) (s : List Char), Laid.Ahead more → Laid (v.tokens ++ more) s →
    ∃ rest, read s = .ok (v.settled, rest) ∧ Laid more rest ∧ rest.length < s.length

section

variable {first : Bool} {more : List (List Char)} {s : List Char}

/-! ## Arrays -/

theorem nextElement_finished (h : Laid ([']'] :: more) s) :
    ∃ rest, nextElement first s = .ok (.finished rest) ∧ Laid more rest ∧
      rest.length < s.length := by
  obtain ⟨rest, hskip, hrest, hlt⟩ := h.skipBlanks rfl
  refine ⟨rest, ?_, hrest, by omega⟩
  rw [nextElement, hskip]
  rfl

/-- Blanks skipped, the text goes on with the tree and not with the end of an array. -/
theorem Plain.skipBlanks {levels : Nat} {v : Json} (hv : v.Plain levels)
    (h : Laid (v.tokens ++ more) s) :
    ∃ c rest, Json.skipBlanks s = c :: rest ∧ c ≠ ']' ∧ Laid (v.tokens ++ more) (c :: rest) ∧
      rest.length < s.length := by
  obtain ⟨c, token, tokens, htokens, hblank, hclose⟩ := hv.tokens_eq_cons
  rw [htokens, List.cons_append] at h ⊢
  obtain ⟨rest, hskip, hrest, hlt⟩ := h.skipBlanks hblank
  exact ⟨c, token ++ rest, hskip, hclose, hrest.token (c :: token), by simpa using hlt⟩

theorem nextElement_entry {levels : Nat} {v : Json} (hv : v.Plain levels)
    (h : Laid ((if first then [] else [[',']]) ++ (v.tokens ++ more)) s) :
    ∃ rest, nextElement first s = .ok (.entry rest) ∧ Laid (v.tokens ++ more) rest ∧
      rest.length ≤ s.length := by
  cases first with
  | true =>
    obtain ⟨c, rest, hskip, hclose, hrest, hlt⟩ := hv.skipBlanks h
    refine ⟨c :: rest, ?_, hrest, hlt⟩
    rw [nextElement, hskip]
    split
    · next hnil => cases hnil
    · next hend => exact absurd (List.cons.inj hend).1 hclose
    · next hcons =>
      cases hcons
      rfl
  | false =>
    obtain ⟨after, hcomma, hafter, hlt⟩ := h.skipBlanks rfl
    obtain ⟨c, rest, hskip, hclose, hrest, hlt'⟩ := hv.skipBlanks hafter
    refine ⟨c :: rest, ?_, hrest, by simp only [List.length_cons]; omega⟩
    rw [nextElement, hcomma]
    split
    · next hnil => cases hnil
    · next hend => cases (List.cons.inj hend).1
    · next hcons =>
      obtain ⟨rfl, rfl⟩ := List.cons.inj hcons
      rw [if_neg Bool.false_ne_true, if_pos rfl, List.nil_append, hskip]
      split
      · next hnil => cases hnil
      · next hend => exact absurd (List.cons.inj hend).1 hclose
      · rfl

theorem readElements_of_laid {levels : Nat} {read : List Char → Reading Json} {vs : List Json}
    (hplain : ∀ v ∈ vs, v.Plain levels) (hread : ∀ v ∈ vs, ReadsBack read v) {turns : Nat}
    (h : Laid (elementsTokens first vs ++ more) s) (hturns : s.length < turns) :
    ∃ rest, readElements read turns first s = .ok (settledElements vs, rest) ∧ Laid more rest ∧
      rest.length < s.length := by
  induction vs generalizing first turns s with
  | nil =>
    obtain ⟨turns, rfl⟩ := Nat.exists_eq_succ_of_ne_zero (Nat.ne_zero_of_lt hturns)
    obtain ⟨rest, hnext, hrest, hlt⟩ := @nextElement_finished first _ _ h
    refine ⟨rest, ?_, hrest, hlt⟩
    rw [readElements, hnext]
    rfl
  | cons v vs ih =>
    obtain ⟨turns, rfl⟩ := Nat.exists_eq_succ_of_ne_zero (Nat.ne_zero_of_lt hturns)
    rw [elementsTokens, List.append_assoc, List.append_assoc] at h
    obtain ⟨entry, hnext, hentry, hle⟩ := nextElement_entry (hplain v List.mem_cons_self) h
    obtain ⟨after, hvalue, hafter, hlt⟩ :=
      hread v List.mem_cons_self _ _ (Laid.ahead_elementsTokens vs more) hentry
    have hbound : after.length < turns := by omega
    obtain ⟨rest, hothers, hrest, hlt'⟩ := ih (fun w hw => hplain w (List.mem_cons_of_mem _ hw))
      (fun w hw => hread w (List.mem_cons_of_mem _ hw)) hafter hbound
    refine ⟨rest, ?_, hrest, by omega⟩
    simp only [readElements, hnext, hvalue, hothers, bind, Except.bind]
    rfl

/-! ## Objects -/

theorem nextMember_finished (h : Laid (['\x7d'] :: more) s) :
    ∃ rest, nextMember first s = .ok (.finished rest) ∧ Laid more rest ∧
      rest.length < s.length := by
  obtain ⟨rest, hskip, hrest, hlt⟩ := h.skipBlanks rfl
  refine ⟨rest, ?_, hrest, by omega⟩
  rw [nextMember, hskip]
  rfl

/-- An entry of an object is what comes after the quote of its key. -/
theorem nextMember_entry {key : String}
    (h : Laid ((if first then [] else [[',']]) ++ (Quoted.chars key :: more)) s) :
    ∃ rest, nextMember first s = .ok (.entry ((Quoted.chars key).tail ++ rest)) ∧
      Laid more rest ∧ rest.length < s.length := by
  cases first with
  | true =>
    obtain ⟨rest, hskip, hrest, hlt⟩ := Laid.skipBlanks h rfl
    refine ⟨rest, ?_, hrest, by omega⟩
    rw [nextMember, hskip]
    rfl
  | false =>
    obtain ⟨after, hcomma, hafter, hlt⟩ := h.skipBlanks rfl
    obtain ⟨rest, hskip, hrest, hlt'⟩ := Laid.skipBlanks hafter rfl
    refine ⟨rest, ?_, hrest, by omega⟩
    rw [nextMember, hcomma]
    split
    · next hnil => cases hnil
    · next hend => cases (List.cons.inj hend).1
    · next hcons =>
      obtain ⟨rfl, rfl⟩ := List.cons.inj hcons
      rw [if_neg Bool.false_ne_true, if_pos rfl, List.nil_append, hskip]
      rfl

theorem readColon_of_laid (h : Laid ([':'] :: more) s) :
    ∃ rest, readColon s = .ok rest ∧ Laid more rest ∧ rest.length < s.length := by
  obtain ⟨rest, hskip, hrest, hlt⟩ := h.skipBlanks rfl
  refine ⟨rest, ?_, hrest, by omega⟩
  rw [readColon, hskip]
  rfl

theorem readMembers_of_laid {read : List Char → Reading Json} {ms : List (String × Json)}
    (hread : ∀ m ∈ ms, ReadsBack read m.2) {turns : Nat} {members : Members}
    (h : Laid (membersTokens first ms ++ more) s) (hturns : s.length < turns) :
    ∃ rest, readMembers read turns first members s = .ok (settledMembers members ms, rest) ∧
      Laid more rest ∧ rest.length < s.length := by
  induction ms generalizing first turns members s with
  | nil =>
    obtain ⟨turns, rfl⟩ := Nat.exists_eq_succ_of_ne_zero (Nat.ne_zero_of_lt hturns)
    obtain ⟨rest, hnext, hrest, hlt⟩ := @nextMember_finished first _ _ h
    refine ⟨rest, ?_, hrest, hlt⟩
    rw [readMembers, hnext]
    rfl
  | cons m ms ih =>
    obtain ⟨key, v⟩ := m
    obtain ⟨turns, rfl⟩ := Nat.exists_eq_succ_of_ne_zero (Nat.ne_zero_of_lt hturns)
    rw [membersTokens, List.append_assoc, List.append_assoc] at h
    obtain ⟨afterKey, hnext, hafterKey, hltKey⟩ := nextMember_entry h
    obtain ⟨entry, hcolon, hentry, hltColon⟩ := readColon_of_laid hafterKey
    obtain ⟨after, hvalue, hafter, hltValue⟩ :=
      hread (key, v) List.mem_cons_self _ _ (Laid.ahead_membersTokens ms more) hentry
    have hbound : after.length < turns := by omega
    obtain ⟨rest, hothers, hrest, hlt⟩ :=
      ih (fun m hm => hread m (List.mem_cons_of_mem _ hm)) hafter hbound
    refine ⟨rest, ?_, hrest, by omega⟩
    simp only [readMembers, hnext, Quoted.read_chars, hcolon, hvalue, bind, Except.bind]
    exact hothers

end

/-! ## Values -/

theorem readKeyword_append (keyword rest : List Char) :
    readKeyword keyword (keyword ++ rest) = .ok rest := by
  induction keyword with
  | nil => rfl
  | cons c keyword ih => rw [List.cons_append, readKeyword, if_pos rfl, ih]

/-- A text that goes on with a minus or a digit is read as a number. -/
theorem readValue_number {levels : Nat} {c : Char} {s rest : List Char}
    (hskip : skipBlanks s = c :: rest) (hc : c = '-' ∨ c.isDigit) :
    readValue levels s = (do
      let (n, rest) ← Numeral.read (c :: rest)
      pure (number n, rest)) := by
  have hnot : ∀ d : Char, d ≠ '-' → d.isDigit = false → c ≠ d := by
    rintro d hd hdigit rfl
    rcases hc with hc | hc
    · exact hd hc
    · rw [hdigit] at hc
      cases hc
  unfold readValue
  rw [hskip]
  split
  · next h => cases h
  · next h => exact absurd (List.cons.inj h).1 (hnot _ (by decide) rfl)
  · next h => exact absurd (List.cons.inj h).1 (hnot _ (by decide) rfl)
  · next h => exact absurd (List.cons.inj h).1 (hnot _ (by decide) rfl)
  · next h => exact absurd (List.cons.inj h).1 (hnot _ (by decide) rfl)
  · next h => exact absurd (List.cons.inj h).1 (hnot _ (by decide) rfl)
  · next h => exact absurd (List.cons.inj h).1 (hnot _ (by decide) rfl)
  · next h =>
    cases h
    rw [if_pos hc]

/-- A tree of one token is read back if it is from a text that goes on with the token. -/
theorem ReadsBack.of_token {read : List Char → Reading Json} {v : Json} {c : Char}
    {token : List Char} (htokens : v.tokens = [c :: token]) (hblank : isBlank c = false)
    (hread : ∀ s rest, skipBlanks s = c :: (token ++ rest) →
      StartsOutside Numeral.continues rest → read s = .ok (v.settled, rest)) :
    ReadsBack read v := by
  intro more s hahead h
  rw [htokens] at h
  obtain ⟨rest, hskip, hrest, hlt⟩ := Laid.skipBlanks h hblank
  exact ⟨rest, hread s rest hskip (hrest.startsOutside hahead), hrest, by omega⟩

/-- With enough levels of nesting, a tree of whole numbers is read back. -/
theorem Plain.readsBack {levels : Nat} {v : Json} (hv : v.Plain levels) :
    ReadsBack (readValue levels) v := by
  induction hv with
  | null levels =>
    refine ReadsBack.of_token rfl rfl fun s rest hskip _ => ?_
    unfold readValue
    rw [hskip]
    show (readKeyword "ull".toList ("ull".toList ++ rest)).bind _ = _
    rw [readKeyword_append]
    rfl
  | boolean levels b =>
    cases b with
    | true =>
      refine ReadsBack.of_token rfl rfl fun s rest hskip _ => ?_
      unfold readValue
      rw [hskip]
      show (readKeyword "rue".toList ("rue".toList ++ rest)).bind _ = _
      rw [readKeyword_append]
      rfl
    | false =>
      refine ReadsBack.of_token rfl rfl fun s rest hskip _ => ?_
      unfold readValue
      rw [hskip]
      show (readKeyword "alse".toList ("alse".toList ++ rest)).bind _ = _
      rw [readKeyword_append]
      rfl
  | whole levels value inRange =>
    obtain ⟨c, cs, hchars, hc⟩ := Numeral.chars_whole_eq_cons value inRange
    refine ReadsBack.of_token (congrArg (fun token => [token]) hchars) (isBlank_eq_false hc)
      fun s rest hskip hrest => ?_
    rw [readValue_number hskip hc, ← List.cons_append, ← hchars,
      Numeral.read_whole value inRange hrest]
    rfl
  | string levels t =>
    refine ReadsBack.of_token rfl rfl fun s rest hskip _ => ?_
    unfold readValue
    rw [hskip]
    show (Quoted.read ((Quoted.chars t).tail ++ rest)).bind _ = _
    rw [Quoted.read_chars]
    rfl
  | @array levels vs hvs ih =>
    intro more s _ h
    obtain ⟨inside, hskip, hinside, hlt⟩ := Laid.skipBlanks h rfl
    obtain ⟨rest, hread, hrest, hlt'⟩ :=
      readElements_of_laid hvs ih hinside (Nat.lt_succ_self inside.length)
    refine ⟨rest, ?_, hrest, by omega⟩
    unfold readValue
    rw [hskip]
    show (readElements (readValue levels) (inside.length + 1) true inside).bind _ = _
    rw [hread]
    rfl
  | @object levels ms hms ih =>
    intro more s _ h
    obtain ⟨inside, hskip, hinside, hlt⟩ := Laid.skipBlanks h rfl
    obtain ⟨rest, hread, hrest, hlt'⟩ :=
      @readMembers_of_laid true more inside _ ms ih _ [] hinside (Nat.lt_succ_self inside.length)
    refine ⟨rest, ?_, hrest, by omega⟩
    unfold readValue
    rw [hskip]
    show (readMembers (readValue levels) (inside.length + 1) true [] inside).bind _ = _
    rw [hread]
    rfl

/-! ## Texts -/

theorem read_of_spells {v : Json} (hv : v.Plain nestingLimit) {text : String}
    (h : v.Spells text) : Json.read text = .ok v.settled := by
  have hlaid : Laid (v.tokens ++ []) text.toList := by rwa [List.append_nil]
  obtain ⟨rest, hread, hrest, -⟩ := hv.readsBack [] _ (fun _ hmore => by cases hmore) hlaid
  have hchars : readChars text.toList = .ok v.settled := by
    simp only [readChars, hread, bind, Except.bind, hrest.skipBlanks_eq_nil]
    rfl
  rw [read, hchars]

/-- A well-formed value is read back from its canonical text. -/
theorem read_render {v : Json} (hv : v.Plain nestingLimit) (hwell : v.WellFormed) :
    Json.read v.render = .ok v := by
  rw [read_of_spells hv v.spells_render, settled_of_wellFormed hwell]

end Json

/-- The text that a literal asks for is its canonical one. -/
theorem Runner.expected?_of_equal {literal v : Json} {p : Place} {e : DecodeError}
    (h : (Runner.equal literal v p).outcome = .error e) :
    e.reason.expected? = some literal.render := by
  unfold Runner.equal at h
  split at h
  · cases h
  · cases h
    rfl

section

variable {n : Nat} {τ : Fin n → Type} {α : Type}

/-- **Decoding a text is decoding its value.**  Every text of a syntax tree of whole numbers, of at
most 127 nested arrays and objects, is read without a fault and decodes as the value of the tree
does, to the same outcome with the same events, for every decoder and all options.

In that value every object has, in ascending order of the bytes of the keys, what comes last under
each.  So trees whose members of different keys have changed places decode alike, and the text that
a well-formed literal asks for is read back as the literal. -/
theorem Decoder.decodeText_of_spells (defs : Definitions τ) (d : Decoder τ α) (options : Options)
    {t : Json} (ht : t.Plain Json.nestingLimit) :
    (∀ text, t.Spells text →
      d.decodeText defs options text = .ok (d.decode defs options t.settled)) ∧
    ((∀ ms, ∃ ms', (Json.object ms).settled = .object ms' ∧
        (Members.keys ms').Pairwise (fun a b => utf8Bytes a < utf8Bytes b) ∧
        ∀ key, Members.find? key ms' = (Members.find? key ms.reverse).map Json.settled) ∧
      (∀ vs, (Json.array vs).settled = .array (vs.map Json.settled)) ∧
      t.settled.WellFormed ∧ (t.WellFormed → t.settled = t)) ∧
    (∀ t' text text', t.Reordered t' → t.Spells text → t'.Spells text' →
      d.decodeText defs options text' = d.decodeText defs options text) ∧
    (t.WellFormed → ∀ budget v p e,
      ((Decoder.equal t : Decoder τ Json).runWithin defs budget v p).outcome = .error e →
      ∃ text, e.reason.expected? = some text ∧
        (Decoder.any : Decoder τ Json).decodeText defs options text = .ok ⟨.value t, []⟩) := by
  have htext : ∀ {β : Type} (d : Decoder τ β) {t : Json} {text : String},
      t.Plain Json.nestingLimit → t.Spells text →
      d.decodeText defs options text = .ok (d.decode defs options t.settled) := by
    intro β d t text ht h
    rw [Decoder.decodeText, Json.read_of_spells ht h]
  refine ⟨fun text h => htext d ht h, ⟨fun ms => ⟨_, rfl, ?_, fun key => ?_⟩, fun vs => ?_,
    t.settled_wellFormed, Json.settled_of_wellFormed⟩, ?_, ?_⟩
  · exact (Json.pairwise_settledMembers .nil ms).imp lt_iff_utf8Bytes_lt.1
  · rw [Json.find?_settledMembers]
    exact Option.or_none
  · rw [Json.settled, Json.settledElements_eq_map]
  · intro t' text text' hreordered h h'
    rw [htext d ht h, htext d (hreordered.plain ht) h', hreordered.settled_eq]
  · intro hwell budget v p e he
    refine ⟨t.render, Runner.expected?_of_equal he, ?_⟩
    rw [Decoder.decodeText, Json.read_render ht hwell]
    rfl

end

/-- Two members under one key, whole numbers at the limits of 64 bits, a character to be escaped and
one beyond U+FFFF. -/
def repeatedMember : Json :=
  .object [("b", .number (.whole 18446744073709551615 (by decide))),
    ("\n", .array [.number (.whole (-9223372036854775808) (by decide))]), ("b", .string "😀")]

theorem repeatedMember_decodeText_of_spells :
    (Decoder.any : Decoder (fun i : Fin 0 => i.elim0) Json).decodeText (fun i => i.elim0)
        Options.unlimited
        "\x7b\"b\" : 18446744073709551615,\n\"\\n\":[-9223372036854775808\t],\"b\":\"😀\"\x7d " =
      .ok ⟨.value (.object
        [("\n", .array [.number (.whole (-9223372036854775808) (by decide))]),
          ("b", .string "😀")]), []⟩ := by
  have hplain : repeatedMember.Plain Json.nestingLimit := by
    refine .object (List.forall_mem_cons.2 ⟨.whole _ _ _, List.forall_mem_cons.2 ⟨.array ?_,
      List.forall_mem_cons.2 ⟨.string _ _, fun _ h => by cases h⟩⟩⟩)
    exact List.forall_mem_cons.2 ⟨.whole _ _ _, fun _ h => by cases h⟩
  refine ((Decoder.decodeText_of_spells (τ := fun i : Fin 0 => i.elim0) (fun i => i.elim0) .any
    Options.unlimited hplain).1 _ ?_).trans rfl
  exact .token "\x7b".toList <| .token "\"b\"".toList <| .blank rfl <| .token ":".toList <|
    .blank rfl <| .token "18446744073709551615".toList <| .token ",".toList <| .blank rfl <|
    .token "\"\\n\"".toList <| .token ":".toList <| .token "[".toList <|
    .token "-9223372036854775808".toList <| .blank rfl <| .token "]".toList <|
    .token ",".toList <| .token "\"b\"".toList <| .token ":".toList <|
    .token "\"😀\"".toList <| .token "\x7d".toList <| .blank rfl .done

end TypedJson
