import TypedJson.Proofs.Fields
import TypedJson.Proofs.PathText

/-!
# The text of the missing keys determines them

The keys that an object lacks are reported sorted, each bare or quoted, with commas between them.
The text is read from its start in one way only: a bare key ends where a character comes that no
identifier has, a quoted key at its closing quote, and what follows is a comma or nothing at all.
So the text is that of one sorted list (`missingKeysText_eq_iff`), and a sorted list is that of the
lists it is a rearrangement of (`Runner.missingKeys_eq_iff_perm`):

    missingKeysText (missingKeys keys ms) = missingKeysText (missingKeys keys' ms') ↔
      those of `keys` that `ms` lacks are a rearrangement of those of `keys'` that `ms'` lacks
-/

namespace TypedJson

/-! ## One key -/

theorem toList_keyText_of_isBareKey {key : String} (h : isBareKey key) :
    (keyText key).toList = key.toList := by
  rw [keyText, if_pos h]

theorem toList_keyText_of_not_isBareKey {key : String} (h : ¬ isBareKey key) :
    (keyText key).toList = Quoted.chars key := by
  rw [keyText, if_neg h, Quoted.quote, String.toList_ofList]

theorem toList_ne_nil_of_isBareKey {key : String} (h : isBareKey key) : key.toList ≠ [] := by
  intro hkey
  rw [isBareKey, hkey] at h
  cases h

theorem toList_keyText_ne_nil (key : String) : (keyText key).toList ≠ [] := by
  by_cases h : isBareKey key
  · rw [toList_keyText_of_isBareKey h]
    exact toList_ne_nil_of_isBareKey h
  · rw [toList_keyText_of_not_isBareKey h]
    exact List.cons_ne_nil _ _

/-- A text begins with one key only, if what follows it does not go on as an identifier. -/
theorem keyText_append_inj {key key' : String} {x y : List Char}
    (hx : StartsOutside isIdentifierRest x) (hy : StartsOutside isIdentifierRest y)
    (h : (keyText key).toList ++ x = (keyText key').toList ++ y) : key = key' ∧ x = y := by
  by_cases hkey : isBareKey key
  · have hident := isIdentifierRest_of_isBareKey hkey
    rw [toList_keyText_of_isBareKey hkey] at h
    by_cases hkey' : isBareKey key'
    · rw [toList_keyText_of_isBareKey hkey'] at h
      obtain ⟨hsame, hrest⟩ := append_inj_of_startsOutside hident
        (isIdentifierRest_of_isBareKey hkey') hx hy h
      exact ⟨String.toList_injective hsame, hrest⟩
    · rw [toList_keyText_of_not_isBareKey hkey'] at h
      exact absurd h.symm (chars_append_ne (toList_ne_nil_of_isBareKey hkey) hident rfl)
  · rw [toList_keyText_of_not_isBareKey hkey] at h
    by_cases hkey' : isBareKey key'
    · rw [toList_keyText_of_isBareKey hkey'] at h
      exact absurd h (chars_append_ne (toList_ne_nil_of_isBareKey hkey')
        (isIdentifierRest_of_isBareKey hkey') rfl)
    · rw [toList_keyText_of_not_isBareKey hkey'] at h
      exact Quoted.chars_append_inj h

/-! ## Lists of keys -/

/-- What follows the first key in the text of a list: the other keys, each after its comma. -/
def furtherKeys (keys : List String) : List Char :=
  keys.flatMap fun key => ',' :: ' ' :: (keyText key).toList

theorem furtherKeys_cons (key : String) (keys : List String) :
    furtherKeys (key :: keys) = ',' :: ' ' :: ((keyText key).toList ++ furtherKeys keys) := by
  simp [furtherKeys]

theorem toList_intercalate_keyText (key : String) (keys : List String) :
    (", ".intercalate ((key :: keys).map keyText)).toList =
      (keyText key).toList ++ furtherKeys keys := by
  induction keys generalizing key with
  | nil => simp [furtherKeys]
  | cons next keys ih =>
    rw [List.map_cons, List.map_cons, String.intercalate_cons_cons, ← List.map_cons,
      String.toList_append, ih, furtherKeys_cons]
    simp

/-- After a key comes a comma or nothing, and neither goes on as an identifier. -/
theorem startsOutside_furtherKeys (keys : List String) :
    StartsOutside isIdentifierRest (furtherKeys keys) := by
  cases keys with
  | nil => nofun
  | cons key keys =>
    rw [furtherKeys_cons]
    exact startsOutside_cons rfl _

theorem toList_keyText_append_furtherKeys_inj {key key' : String} {keys keys' : List String}
    (h : (keyText key).toList ++ furtherKeys keys = (keyText key').toList ++ furtherKeys keys') :
    key = key' ∧ furtherKeys keys = furtherKeys keys' :=
  keyText_append_inj (startsOutside_furtherKeys keys) (startsOutside_furtherKeys keys') h

theorem furtherKeys_injective : Function.Injective furtherKeys := by
  intro keys
  induction keys with
  | nil =>
    intro keys' h
    cases keys' with
    | nil => rfl
    | cons key' keys' =>
      rw [furtherKeys_cons] at h
      cases h
  | cons key keys ih =>
    intro keys' h
    cases keys' with
    | nil =>
      rw [furtherKeys_cons] at h
      cases h
    | cons key' keys' =>
      rw [furtherKeys_cons, furtherKeys_cons] at h
      obtain ⟨rfl, hrest⟩ :=
        toList_keyText_append_furtherKeys_inj (List.cons.inj (List.cons.inj h).2).2
      rw [ih hrest]

/-- The keys joined are those of no other list, in this order. -/
theorem intercalate_keyText_inj {keys keys' : List String}
    (h : ", ".intercalate (keys.map keyText) = ", ".intercalate (keys'.map keyText)) :
    keys = keys' := by
  replace h := congrArg String.toList h
  cases keys with
  | nil =>
    cases keys' with
    | nil => rfl
    | cons key' keys' =>
      rw [toList_intercalate_keyText] at h
      exact absurd (List.append_eq_nil_iff.1 h.symm).1 (toList_keyText_ne_nil key')
  | cons key keys =>
    cases keys' with
    | nil =>
      rw [toList_intercalate_keyText] at h
      exact absurd (List.append_eq_nil_iff.1 h).1 (toList_keyText_ne_nil key)
    | cons key' keys' =>
      rw [toList_intercalate_keyText, toList_intercalate_keyText] at h
      obtain ⟨rfl, hrest⟩ := toList_keyText_append_furtherKeys_inj h
      rw [furtherKeys_injective hrest]

theorem missingKeysText_eq_iff {keys keys' : List String} :
    missingKeysText keys = missingKeysText keys' ↔ keys = keys' := by
  constructor
  · intro h
    have hjoined : ", ".intercalate (keys.map keyText) = ", ".intercalate (keys'.map keyText) :=
      (String.append_right_inj _).1 h
    exact intercalate_keyText_inj hjoined
  · rintro rfl
    rfl

example : missingKeysText ["a, b", "b"] = "object with keys: \"a, b\", b" := rfl

/-! ## Sorted keys -/

namespace Runner

/-- The missing keys come in one order, in whatever order they were declared. -/
theorem missingKeys_eq_iff_perm {keys keys' : List String} {ms ms' : Members} :
    missingKeys keys ms = missingKeys keys' ms' ↔
      (keys.filter fun key => (Members.find? key ms).isNone).Perm
        (keys'.filter fun key => (Members.find? key ms').isNone) := by
  have hperm := missingKeys_perm keys ms
  have hperm' := missingKeys_perm keys' ms'
  constructor
  · intro h
    rw [h] at hperm
    exact hperm.symm.trans hperm'
  · intro h
    exact ((hperm.trans h).trans hperm'.symm).eq_of_pairwise
      (fun _ _ _ _ => eq_of_utf8Bytes_le) (missingKeys_sorted keys ms)
      (missingKeys_sorted keys' ms')

theorem missingKeysText_missingKeys_eq_iff {keys keys' : List String} {ms ms' : Members} :
    missingKeysText (missingKeys keys ms) = missingKeysText (missingKeys keys' ms') ↔
      (keys.filter fun key => (Members.find? key ms).isNone).Perm
        (keys'.filter fun key => (Members.find? key ms').isNone) :=
  missingKeysText_eq_iff.trans missingKeys_eq_iff_perm

/-- Where there are no members, all keys are missing. -/
theorem filter_find?_nil (keys : List String) :
    (keys.filter fun key => (Members.find? key []).isNone) = keys := by
  simp [Members.find?]

end Runner

/-! ## Decoders -/

section

variable {ι : Type} [Numbered ι] {τ : ι → Type}

/-- **The text of the missing keys determines them.**  Two lists of keys, whatever characters are in
them, are reported as missing in one text iff one is a rearrangement of the other.  The order in
which keys are declared makes no difference to the text.  An object whose fields are accepted as far
as they are there, and that lacks others, is rejected where it stands, with the text of the keys it
lacks, each as often as it is declared, and of no other keys. -/
theorem Decoder.missingKeys_text_eq_iff_perm (defs : Definitions τ) (budget : Nat) :
    (∀ missing missing' : List String,
      missingKeysText (Runner.missingKeys missing []) =
          missingKeysText (Runner.missingKeys missing' []) ↔ missing.Perm missing') ∧
    (∀ (keys keys' : List String) (ms : Members), keys.Perm keys' →
      missingKeysText (Runner.missingKeys keys ms) =
        missingKeysText (Runner.missingKeys keys' ms)) ∧
    ∀ {k : Nat} {σ : Fin k → Type} {α : Type} (keys : Fin k → String)
      (fields : (i : Fin k) → Decoder τ (σ i)) (construct : ((i : Fin k) → σ i) → α)
      (ms : Members) (p : Place),
      (∀ i w, Members.find? (keys i) ms = some w →
        ((fields i).runWithin defs budget w (p.child (.key (keys i)))).Accepts) →
      (∃ i, Members.find? (keys i) ms = none) →
      ∃ e, ((Decoder.object keys fields construct).runWithin defs budget (.object ms) p).outcome =
          .error e ∧
        e.path = p.path ∧
        ∀ missing : List String,
          e.reason.expected? = some (missingKeysText (Runner.missingKeys missing [])) ↔
            missing.Perm ((List.ofFn keys).filter fun key => (Members.find? key ms).isNone) := by
  refine ⟨fun missing missing' => ?_, fun keys keys' ms h => ?_, ?_⟩
  · rw [Runner.missingKeysText_missingKeys_eq_iff, Runner.filter_find?_nil,
      Runner.filter_find?_nil]
  · exact Runner.missingKeysText_missingKeys_eq_iff.2 (h.filter _)
  · intro k σ α keys fields construct ms p hpasses hmissing
    have hrun := Runner.object_of_missing
      (fun i => Runner.accepts_field.2 (hpasses i)) hmissing construct
    refine ⟨_, congrArg Run.outcome hrun, rfl, fun missing => ?_⟩
    have htext := @Runner.missingKeysText_missingKeys_eq_iff missing (List.ofFn keys) [] ms
    rw [Runner.filter_find?_nil] at htext
    rw [← htext, eq_comm]
    exact Option.some_inj

end

/-- Flags under these keys. -/
def flagsUnder (keys : List String) : Decoder (fun i : Fin 0 => i.elim0) (List Bool) :=
  .object keys.get (fun _ => .boolean) List.ofFn

/-- An object that has the flag `c` lacks `b` and `a, b`.  It is told so in the text of these two,
in either order, and the three keys `a`, `b` and `b` have another text. -/
theorem flagsUnder_missingKeys_text :
    ∃ e, ((flagsUnder ["b", "c", "a, b"]).runWithin (fun i => i.elim0) 0
        (.object [("c", .boolean true)]) (Place.root none)).outcome = .error e ∧
      e.reason.expected? = some (missingKeysText (Runner.missingKeys ["a, b", "b"] [])) ∧
      e.reason.expected? ≠ some (missingKeysText (Runner.missingKeys ["a", "b", "b"] [])) := by
  have hflag : ∀ (i : Fin 3) w,
      Members.find? (["b", "c", "a, b"].get i) [("c", .boolean true)] = some w →
      w = .boolean true := by
    intro i w hw
    match i with
    | 0 => cases hw
    | 1 =>
      cases hw
      rfl
    | 2 => cases hw
  obtain ⟨e, he, -, htext⟩ := (Decoder.missingKeys_text_eq_iff_perm
    (τ := fun i : Fin 0 => i.elim0) (fun i => i.elim0) 0).2.2 ["b", "c", "a, b"].get
    (fun _ => .boolean) List.ofFn [("c", .boolean true)] (Place.root none)
    (fun i w hw => ⟨true, by rw [hflag i w hw]; rfl⟩) ⟨0, rfl⟩
  have hlacks : ((List.ofFn ["b", "c", "a, b"].get).filter fun key =>
      (Members.find? key [("c", .boolean true)]).isNone) = ["b", "a, b"] := rfl
  rw [hlacks] at htext
  refine ⟨e, he, (htext _).2 (.swap _ _ _), fun h => ?_⟩
  have hlength := ((htext _).1 h).length_eq
  cases hlength

end TypedJson
