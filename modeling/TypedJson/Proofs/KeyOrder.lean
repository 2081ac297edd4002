import Mathlib.Data.List.Sort
import Mathlib.Data.String.Basic
import TypedJson.Proofs.Blame

/-!
# Keys in order

Keys are compared as strings, by code points, and that is the order of their UTF-8 bytes
(`lt_iff_utf8Bytes_lt`): of two characters the lower one has the lower encoding, and where two
encodings differ first neither has ended.

Members in the order of their keys are determined by what is found under each key
(`Members.ext_find?`).
-/

namespace TypedJson

/-! ## Bytes -/

/-- The bytes of the UTF-8 encoding of a string. -/
def utf8Bytes (s : String) : List UInt8 := s.toByteArray.data.toList

theorem utf8Bytes_eq_flatMap (s : String) :
    utf8Bytes s = s.toList.flatMap String.utf8EncodeChar := by
  rw [utf8Bytes, ← String.utf8Encode_toList]
  exact List.toList_data_toByteArray

/-- The encoding of a lower character comes first, whatever follows the two. -/
theorem utf8EncodeChar_append_lt {c d : Char} (h : c < d) (x y : List UInt8) :
    String.utf8EncodeChar c ++ x < String.utf8EncodeChar d ++ y := by
  have hlt : c.val.toNat < d.val.toNat := h
  have hbound : d.val.toNat < 0x110000 := by
    rcases d.valid with hd | hd
    · omega
    · omega
  unfold String.utf8EncodeChar
  generalize c.val.toNat = m, d.val.toNat = n at hlt hbound
  dsimp only
  -- one to four bytes on either side, compared as numbers
  split_ifs
  all_goals
    simp only [List.cons_append, List.nil_append, List.cons_lt_cons_iff, UInt8.lt_iff_toNat_lt,
      ← UInt8.toNat_inj, UInt8.toNat_ofNat', Nat.reducePow]
    simp (disch := omega) only [Nat.mod_eq_of_lt]
    omega

theorem utf8EncodeChar_ne_nil (c : Char) : String.utf8EncodeChar c ≠ [] := by
  unfold String.utf8EncodeChar
  dsimp only
  split_ifs
  all_goals exact List.cons_ne_nil _ _

theorem flatMap_utf8EncodeChar_lt {s t : List Char} (h : s < t) :
    s.flatMap String.utf8EncodeChar < t.flatMap String.utf8EncodeChar := by
  induction h with
  | @nil c t =>
    obtain ⟨b, bs, hc⟩ := List.exists_cons_of_ne_nil (utf8EncodeChar_ne_nil c)
    rw [List.flatMap_cons, hc]
    exact .nil
  | cons _ ih => exact List.append_left_lt ih
  | rel h => exact utf8EncodeChar_append_lt h _ _

/-- The order of keys is that of their UTF-8 bytes. -/
theorem lt_iff_utf8Bytes_lt {s t : String} : s < t ↔ utf8Bytes s < utf8Bytes t := by
  rw [utf8Bytes_eq_flatMap, utf8Bytes_eq_flatMap, String.lt_iff_toList_lt]
  constructor
  · exact flatMap_utf8EncodeChar_lt
  · intro h
    rcases lt_trichotomy s.toList t.toList with hlt | heq | hgt
    · exact hlt
    · rw [heq] at h
      exact absurd h (List.lt_irrefl _)
    · exact absurd (List.lt_trans h (flatMap_utf8EncodeChar_lt hgt)) (List.lt_irrefl _)

theorem eq_of_utf8Bytes_le {s t : String} (h : utf8Bytes s ≤ utf8Bytes t)
    (h' : utf8Bytes t ≤ utf8Bytes s) : s = t := by
  rcases lt_trichotomy s t with hlt | heq | hgt
  · exact absurd (lt_iff_utf8Bytes_lt.1 hlt) h'
  · exact heq
  · exact absurd (lt_iff_utf8Bytes_lt.1 hgt) h

/-! ## Members -/

namespace Members

/-- Members in order that lack the same keys have the same keys. -/
theorem keys_eq_of_find?_eq_none_iff {ms ms' : Members} (h : (keys ms).Pairwise (· < ·))
    (h' : (keys ms').Pairwise (· < ·)) (hnone : ∀ key, find? key ms = none ↔ find? key ms' = none) :
    keys ms = keys ms' := by
  refine List.Pairwise.eq_of_mem_iff h h' fun key => ?_
  rw [← not_iff_not, ← find?_eq_none_iff, ← find?_eq_none_iff, hnone]

/-- Members in order that have the same keys correspond to each other: they stand in one position
and are found under one key. -/
theorem forall₂_of_keys_eq {ms ms' : Members} (h : (keys ms).Pairwise (· < ·))
    (h' : (keys ms').Pairwise (· < ·)) (hkeys : keys ms = keys ms') :
    List.Forall₂ (fun m m' => m.1 = m'.1 ∧ find? m.1 ms = some m.2 ∧ find? m.1 ms' = some m'.2)
      ms ms' := by
  have hlength : ms.length = ms'.length := by simpa [keys] using congrArg List.length hkeys
  refine List.forall₂_iff_get.2 ⟨hlength, fun i hi hi' => ?_⟩
  have hkey : (ms.get ⟨i, hi⟩).1 = (ms'.get ⟨i, hi'⟩).1 := by
    have hi? := congrArg (fun keys => keys[i]?) hkeys
    simpa [keys, hi, hi'] using hi?
  have hfind := find?_eq_some_of_mem h (List.get_mem ms ⟨i, hi⟩)
  have hfind' := find?_eq_some_of_mem h' (List.get_mem ms' ⟨i, hi'⟩)
  rw [← hkey] at hfind'
  exact ⟨hkey, hfind, hfind'⟩

/-- Members in order that have the same value under every key are the same. -/
theorem ext_find? {ms ms' : Members} (h : (keys ms).Pairwise (· < ·))
    (h' : (keys ms').Pairwise (· < ·)) (hfind : ∀ key, find? key ms = find? key ms') :
    ms = ms' := by
  have hkeys := keys_eq_of_find?_eq_none_iff h h' fun key => by rw [hfind]
  refine List.forall₂_eq_eq_eq ▸ (forall₂_of_keys_eq h h' hkeys).imp fun m m' hm => ?_
  obtain ⟨hkey, hvalue, hvalue'⟩ := hm
  rw [hfind, hvalue'] at hvalue
  exact Prod.ext hkey (Option.some.inj hvalue).symm

theorem keys_map (f : Json → Json) (ms : Members) :
    keys (ms.map fun m => (m.1, f m.2)) = keys ms := by
  simp [keys, Function.comp_def]

theorem find?_map (f : Json → Json) (key : String) (ms : Members) :
    find? key (ms.map fun m => (m.1, f m.2)) = (find? key ms).map f := by
  induction ms with
  | nil => rfl
  | cons m ms ih =>
    rw [List.map_cons, find?, find?, ih]
    split
    · rfl
    · rfl

end Members

end TypedJson
