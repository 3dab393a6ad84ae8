import Mathlib.Data.List.AList

/-! A map by key and a list in an order of its own that hold the same values. -/

namespace Opentxs.Library

variable {α β : Type} {key : β → α} {map : AList fun _ : α => β} {values rest : List β} {value : β}

/-- Each value stands under its own key, and the list holds exactly these values. -/
structure Mirrors (key : β → α) (map : AList fun _ : α => β) (values : List β) : Prop where
  keyed : ∀ entry ∈ map.entries, entry.1 = key entry.2
  same : (map.entries.map Sigma.snd).Perm values

namespace Mirrors

theorem empty : Mirrors key ∅ [] := ⟨List.forall_mem_nil _, .nil⟩

theorem congr {values' : List β} (mirrors : Mirrors key map values) (same : values.Perm values') : Mirrors key map values' :=
  ⟨mirrors.keyed, mirrors.same.trans same⟩

theorem mem_entries (mirrors : Mirrors key map values) (member : value ∈ values) : ⟨key value, value⟩ ∈ map.entries := by
  obtain ⟨⟨at_key, held⟩, inside, rfl⟩ := List.mem_map.mp (mirrors.same.mem_iff.mpr member)
  obtain rfl : at_key = key held := mirrors.keyed _ inside
  exact inside

/-- No two values have one key. -/
theorem nodup (mirrors : Mirrors key map values) : (values.map key).Nodup := by
  have keys : (map.entries.map Sigma.snd).map key = map.keys := by
    rw [List.map_map]
    exact List.map_congr_left fun entry inside => (mirrors.keyed entry inside).symm
  exact (mirrors.same.map key).nodup_iff.mp (keys ▸ map.keys_nodup)

variable [DecidableEq α]

theorem lookup (mirrors : Mirrors key map values) (member : value ∈ values) : map.lookup (key value) = some value :=
  AList.mem_lookup_iff.mpr (mirrors.mem_entries member)

theorem of_lookup {at_key : α} (mirrors : Mirrors key map values) (found : map.lookup at_key = some value) :
    value ∈ values ∧ key value = at_key := by
  have inside := AList.mem_lookup_iff.mp found
  exact ⟨mirrors.same.mem_iff.mp (List.mem_map.mpr ⟨_, inside, rfl⟩), (mirrors.keyed _ inside).symm⟩

theorem mem_map_key {at_key : α} (mirrors : Mirrors key map values) : at_key ∈ values.map key ↔ map.lookup at_key ≠ none := by
  constructor
  · rintro inside
    obtain ⟨value, member, rfl⟩ := List.mem_map.mp inside
    rw [mirrors.lookup member]
    exact Option.some_ne_none value
  · intro some
    obtain ⟨value, found⟩ := Option.ne_none_iff_exists'.mp some
    obtain ⟨member, rfl⟩ := mirrors.of_lookup found
    exact List.mem_map_of_mem member

theorem insert (mirrors : Mirrors key map values) (new : map.lookup (key value) = none) :
    Mirrors key (map.insert (key value) value) (value :: values) := by
  have entries : (map.insert (key value) value).entries = ⟨key value, value⟩ :: map.entries :=
    AList.entries_insert_of_notMem (AList.lookup_eq_none.mp new)
  refine ⟨?_, ?_⟩
  · rw [entries]
    exact List.forall_mem_cons.mpr ⟨rfl, mirrors.keyed⟩
  · rw [entries]
    exact mirrors.same.cons value

theorem erase (mirrors : Mirrors key map values) (same : values.Perm (value :: rest)) : Mirrors key (map.erase (key value)) rest := by
  have inside := mirrors.mem_entries (same.mem_iff.mpr List.mem_cons_self)
  obtain ⟨held, before, after, _, entries, erased⟩ := List.exists_of_kerase (List.mem_keys_of_mem inside)
  obtain rfl : held = value :=
    map.nodupKeys.eq_of_mk_mem (entries ▸ List.mem_append_right before List.mem_cons_self) inside
  have left : (map.erase (key held)).entries = before ++ after := erased
  have apart : map.entries.Perm (⟨key held, held⟩ :: (before ++ after)) := entries ▸ List.perm_middle
  refine ⟨fun entry member => ?_, ?_⟩
  · rw [left] at member
    exact mirrors.keyed entry (apart.mem_iff.mpr (List.mem_cons_of_mem _ member))
  · rw [left]
    have split : (map.entries.map Sigma.snd).Perm (held :: (before ++ after).map Sigma.snd) := apart.map Sigma.snd
    have whole := (split.symm.trans mirrors.same).trans same
    exact whole.cons_inv

end Mirrors

end Opentxs.Library
