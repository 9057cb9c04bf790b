import Mathlib.Data.List.AList

/-! Finite maps from keys to expiry times, with their entries in the order in which
they are iterated: dropping what has expired, and the entry closest to expiring. -/
namespace ExpiryMap

universe u
variable {Key : Type u}

abbrev Expiries (Key : Type u) : Type u := AList fun _ : Key => Int

def sweep (map : Expiries Key) (now : Int) : Expiries Key where
  entries := map.entries.filter fun entry => now < entry.2
  nodupKeys := map.nodupKeys.sublist List.filter_sublist

def earlier (best entry : Sigma fun _ : Key => Int) : Sigma fun _ : Key => Int := if entry.2 < best.2 then entry else best

/-- The first entry with the smallest expiry. -/
def earliest : List (Sigma fun _ : Key => Int) → Option (Sigma fun _ : Key => Int)
  | [] => none
  | first::rest => some (rest.foldl earlier first)

theorem sweep_length (map : Expiries Key) (now : Int) : (sweep map now).entries.length ≤ map.entries.length :=
  List.length_filter_le _ _

theorem least_foldl {α : Type u} (rank : α → Int) (rest passed : List α) (best : α) (member : best ∈ passed)
    (least : ∀ entry ∈ passed, rank best ≤ rank entry) :
    let found := rest.foldl (fun best entry => if rank entry < rank best then entry else best) best
    found ∈ passed ++ rest ∧ ∀ entry ∈ passed ++ rest, rank found ≤ rank entry := by
  induction rest generalizing passed best with
  | nil =>
    rw [List.append_nil]
    exact ⟨member,least⟩
  | cons next rest ih =>
    rw [List.append_cons passed next rest]
    apply ih
    · dsimp only
      split
      · exact List.mem_append_right _ (List.mem_singleton_self _)
      · exact List.mem_append_left _ member
    · intro entry inside
      dsimp only
      rcases List.mem_append.mp inside with old | new
      · have bound := least entry old
        split <;> omega
      · rw [List.mem_singleton.mp new]
        split <;> omega

theorem earliest_spec {entries : List (Sigma fun _ : Key => Int)} {found : Sigma fun _ : Key => Int}
    (chosen : earliest entries = some found) : found ∈ entries ∧ ∀ entry ∈ entries, found.2 ≤ entry.2 := by
  cases entries with
  | nil => cases chosen
  | cons first rest =>
    cases chosen
    apply least_foldl Sigma.snd rest [first] first (List.mem_singleton_self _)
    intro entry member
    exact Int.le_of_eq (congrArg Sigma.snd (List.mem_singleton.mp member).symm)

theorem earliest_isSome {entries : List (Sigma fun _ : Key => Int)} (nonempty : entries ≠ []) :
    ∃ found, earliest entries = some found := by
  cases entries with
  | nil => exact absurd rfl nonempty
  | cons first rest => exact ⟨_,rfl⟩

variable [DecidableEq Key]

theorem lookup_sweep (map : Expiries Key) (now : Int) (key : Key) :
    (sweep map now).lookup key = (map.lookup key).filter fun expiry => now < expiry := by
  apply Option.ext
  intro expiry
  have iff : ∀ m : Expiries Key, m.lookup key = some expiry ↔ ⟨key,expiry⟩ ∈ m.entries := fun m => AList.mem_lookup_iff
  rw [iff,Option.filter_eq_some_iff,iff]
  exact List.mem_filter

/-- Nobody who asks later sees the sweep. -/
theorem sweep_live (map : Expiries Key) {now time : Int} (later : now ≤ time) (key : Key) :
    (((sweep map now).lookup key).any fun expiry => time < expiry) = (map.lookup key).any fun expiry => time < expiry := by
  rw [lookup_sweep]
  cases map.lookup key with
  | none => rfl
  | some expiry =>
    by_cases live : now < expiry
    · simp [live]
    · have expired : ¬ time < expiry := by omega
      simp [live,expired]

section Sizes

variable {Value : Type} {map : AList fun _ : Key => Value}

theorem insert_length_fresh {key : Key} (fresh : key ∉ map) (value : Value) :
    (map.insert key value).entries.length = map.entries.length + 1 := by
  rw [AList.entries_insert_of_notMem fresh]
  rfl

theorem erase_perm {entry : Sigma fun _ : Key => Value} (member : entry ∈ map.entries) :
    List.Perm map.entries (entry::(map.erase entry.1).entries) := by
  obtain ⟨other,before,after,_,split,erased⟩ := List.exists_of_kerase (List.mem_keys_of_mem member)
  have same : entry.2 = other := by
    apply map.nodupKeys.eq_of_mk_mem member
    rw [split]
    simp
  have rest : (map.erase entry.1).entries = before ++ after := erased
  rw [split,rest,← same]
  exact List.perm_middle

theorem insert_length_present {key : Key} (present : key ∈ map) (value : Value) :
    (map.insert key value).entries.length = map.entries.length := by
  obtain ⟨old,found⟩ := Option.isSome_iff_exists.mp (AList.lookup_isSome.mpr present)
  have split := (erase_perm (AList.mem_lookup_iff.mp found)).length_eq
  rw [AList.entries_insert,split]
  rfl

theorem erase_length (map : AList fun _ : Key => Value) (key : Key) :
    (map.erase key).entries.length ≤ map.entries.length := (List.kerase_sublist key map.entries).length_le

end Sizes

end ExpiryMap
