import Concord.Format.Options
import Concord.Proofs.Map.Ordered

/-!
# Laws of formatter options

What a set of options holds after it was built from a map, after one more name was set, or after
another set was laid over it: separately for the options that rules can drive (`get?_ofMap`) and
for those that pass through (`find?_extra_ofMap`, `keys_extra_ofMap`).
-/

namespace Concord

namespace FormatOption

/-- A name stands for an option exactly if it is the name of that option. -/
theorem ofName?_eq_some_iff {name : String} {key : FormatOption} :
    ofName? name = some key ↔ name = key.name := by
  constructor
  · intro h
    have hname := List.find?_some h
    exact (of_decide_eq_true hname).symm
  · rintro rfl
    cases key <;> rfl

theorem name_injective {a b : FormatOption} (h : a.name = b.name) : a = b := by
  have ha : ofName? a.name = some a := ofName?_eq_some_iff.2 rfl
  rw [h, ofName?_eq_some_iff.2 rfl] at ha
  exact (Option.some.inj ha).symm

theorem mem_all (key : FormatOption) : key ∈ all := by cases key <;> decide

end FormatOption

namespace FormatOptions

/-- Whether a name passes through, as a name of none of the options that rules can drive. -/
def passes (name : String) : Bool := (FormatOption.ofName? name).isNone

/-- Two sets of options with the same values for the nine and the same other options are equal. -/
theorem ext_get? {a b : FormatOptions} (hget : ∀ key, a.get? key = b.get? key)
    (hextra : a.extra = b.extra) : a = b := by
  obtain ⟨typed, extra⟩ := a
  obtain ⟨typed', extra'⟩ := b
  have htyped : typed = typed' := funext hget
  have hextra' : extra = extra' := hextra
  rw [htyped, hextra']

/-! ## Single operations -/

theorem get?_insert (o : FormatOptions) (k : FormatOption) (value : FormatValue)
    (key : FormatOption) :
    (o.insert k value).get? key = if key = k then some value else o.get? key :=
  rfl

theorem get?_overlay (lower upper : FormatOptions) (key : FormatOption) :
    (lower.overlay upper).get? key = (upper.get? key).or (lower.get? key) := rfl

/-- Setting a name changes the option of that name, if the value is of use to it. -/
theorem get?_set (o : FormatOptions) (name : String) (value : Json) (key : FormatOption) :
    (o.set name value).get? key =
      if name = key.name then (key.read? value).or (o.get? key) else o.get? key := by
  unfold set
  cases hname : FormatOption.ofName? name with
  | none =>
    have hne : name ≠ key.name := by
      intro e
      rw [FormatOption.ofName?_eq_some_iff.2 e] at hname
      cases hname
    rw [if_neg hne]
    rfl
  | some k =>
    obtain rfl : name = k.name := FormatOption.ofName?_eq_some_iff.1 hname
    by_cases hk : k = key
    · subst hk
      rw [if_pos rfl]
      cases hread : k.read? value with
      | none => simp [hread]
      | some v => simp [hread, get?_insert]
    · have hne : k.name ≠ key.name := fun e => hk (FormatOption.name_injective e)
      have hne' : key ≠ k := fun e => hk e.symm
      rw [if_neg hne]
      cases hread : k.read? value with
      | none => simp [hread]
      | some v => simp [hread, get?_insert, hne']

/-- Setting a name that passes through writes it; any other name leaves those that do alone. -/
theorem extra_set (o : FormatOptions) (name : String) (value : Json) :
    (o.set name value).extra = if passes name then o.extra.insert name value else o.extra := by
  unfold set passes
  cases FormatOption.ofName? name with
  | none => rfl
  | some key => cases hread : key.read? value <;> simp [hread, insert]

/-! ## Options from a map -/

/-- Where names are distinct, an option has the value of the entry of its name, if that is of use,
and else what it had. -/
theorem get?_foldl_set {entries : List (String × Json)} (hd : (entries.map Prod.fst).Nodup)
    (o : FormatOptions) (key : FormatOption) :
    (entries.foldl (fun o entry => o.set entry.1 entry.2) o).get? key =
      ((entries.lookup key.name).bind key.read?).or (o.get? key) := by
  induction entries generalizing o with
  | nil => rfl
  | cons entry rest ih =>
    obtain ⟨hentry, hrest⟩ := List.nodup_cons.1 hd
    rw [List.foldl_cons, ih hrest, get?_set, lookup_cons_eq]
    by_cases hn : entry.1 = key.name
    · have hgone : rest.lookup key.name = none := lookup_eq_none_iff_notMem.2 (hn ▸ hentry)
      rw [if_pos hn, if_pos hn.symm, hgone]
      rfl
    · rw [if_neg hn, if_neg fun e => hn e.symm]

/-- Setting values one after another keeps those with names that pass through, in order. -/
theorem extra_foldl_set (entries : List (String × Json)) (o : FormatOptions) :
    (entries.foldl (fun o entry => o.set entry.1 entry.2) o).extra =
      o.extra.insertAll (entries.filter fun entry => passes entry.1) := by
  induction entries generalizing o with
  | nil => rfl
  | cons entry rest ih =>
    rw [List.foldl_cons, ih, extra_set, List.filter_cons]
    split <;> rfl

/-- Of a map one of the nine options has the value under its name, if that value is of use. -/
theorem get?_ofMap (m : OrderedMap Json) (key : FormatOption) :
    (ofMap m).get? key = (m.find? key.name).bind key.read? := by
  rw [ofMap, get?_foldl_set m.nodup]
  exact Option.or_none

/-- The names that pass through, in order. -/
theorem map_fst_filter_passes (m : OrderedMap Json) :
    (m.entries.filter fun entry => passes entry.1).map Prod.fst = m.keys.filter passes := by
  rw [OrderedMap.keys, List.filter_map]
  rfl

theorem nodup_filter_passes (m : OrderedMap Json) : (m.keys.filter passes).Nodup :=
  m.nodup.filter _

/-- Of a map all names pass through that are none of the nine. -/
theorem keys_extra_ofMap (m : OrderedMap Json) : (ofMap m).extra.keys = m.keys.filter passes := by
  rw [ofMap, extra_foldl_set, OrderedMap.keys_insertAll, map_fst_filter_passes]
  exact (collect_nil_left _).trans (eraseDups_of_nodup (nodup_filter_passes m))

/-- What passes through keeps its value. -/
theorem find?_extra_ofMap (m : OrderedMap Json) (name : String) :
    (ofMap m).extra.find? name = if passes name then m.find? name else none := by
  have hnodup : ((m.entries.filter fun entry => passes entry.1).map Prod.fst).Nodup := by
    rw [map_fst_filter_passes]
    exact nodup_filter_passes m
  rw [ofMap, extra_foldl_set, OrderedMap.find?_insertAll, lookup_reverse hnodup, lookup_filter]
  exact Option.or_none

end FormatOptions

end Concord
