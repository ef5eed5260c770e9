import ExprCompiler.Table

/-!
Tables. An entry is found under its key if no other entry has that key, and sorting a table or
setting its entries one after the other does not change what is found in it.
-/

namespace ExprCompiler

variable {Entry : Type} {table other : Table Entry} {key name : Bytes} {entry : Entry}

theorem find_of_mem (distinct : (table.map Prod.fst).Nodup) (member : (key, entry) ∈ table) :
    table.find? key = some entry := by
  induction table with
  | nil => cases member
  | cons first rest induction =>
      obtain ⟨name, value⟩ := first
      rw [List.map_cons, List.nodup_cons] at distinct
      rw [Table.find?]
      rcases List.mem_cons.mp member with same | inRest
      · cases same
        rw [if_pos rfl]
      · rw [if_neg, induction distinct.2 inRest]
        rintro rfl
        exact distinct.1 (List.mem_map.mpr ⟨(name, entry), inRest, rfl⟩)

theorem mem_of_find (found : table.find? key = some entry) : (key, entry) ∈ table := by
  induction table with
  | nil => cases found
  | cons first table induction =>
      obtain ⟨name, value⟩ := first
      rw [Table.find?] at found
      split at found
      · rename_i same
        cases found
        rw [same]
        exact List.mem_cons_self
      · exact List.mem_cons_of_mem _ (induction found)

theorem find_none_of_not_key (absent : ∀ entry ∈ table, entry.1 ≠ key) :
    table.find? key = none := by
  induction table with
  | nil => rfl
  | cons entry table induction =>
      obtain ⟨name, value⟩ := entry
      have here : name ≠ key := absent (name, value) (by simp)
      rw [Table.find?, if_neg here]
      exact induction fun other member => absent other (by simp [member])

theorem find_some_of_key (member : key ∈ table.map Prod.fst) : (table.find? key).isSome = true := by
  induction table with
  | nil => cases member
  | cons entry table induction =>
      obtain ⟨name, value⟩ := entry
      rw [Table.find?]
      split
      · rfl
      · rename_i different
        rcases List.mem_cons.mp member with same | later
        · exact absurd same.symm different
        · exact induction later

theorem not_key_of_find_none (missing : table.find? key = none) : key ∉ table.map Prod.fst := by
  intro member
  have found := find_some_of_key member
  rw [missing] at found
  cases found

theorem find_append (before after : Table Entry) (key : Bytes) :
    Table.find? key (before ++ after) = (before.find? key).or (after.find? key) := by
  induction before with
  | nil => rfl
  | cons first before induction =>
      obtain ⟨name, entry⟩ := first
      rw [List.cons_append, Table.find?, Table.find?]
      split
      · rfl
      · exact induction

theorem find_append_other (absent : table.find? key = none) (different : name ≠ key) :
    Table.find? key (table ++ [(name, entry)]) = none := by
  rw [find_append, absent]
  simp [Table.find?, different]

/-- Where every key has one entry, the order of the entries does not matter. -/
theorem find_perm (distinct : (table.map Prod.fst).Nodup) (same : other.Perm table)
    (key : Bytes) : other.find? key = table.find? key := by
  cases found : table.find? key with
  | some entry =>
      apply find_of_mem
      · exact (same.map Prod.fst).nodup_iff.mpr distinct
      · exact same.mem_iff.mpr (mem_of_find found)
  | none =>
      apply find_none_of_not_key
      rintro ⟨name, entry⟩ member rfl
      have some := find_of_mem distinct (same.mem_iff.mp member)
      rw [found] at some
      cases some

namespace Table

def Within (inner outer : Table Entry) : Prop :=
  ∀ key entry, inner.find? key = some entry → outer.find? key = some entry

theorem Within.refl (table : Table Entry) : table.Within table := fun _ _ found => found

theorem insert_sorted_perm (key : Bytes) (entry : Entry) (table : Table Entry) :
    (insertSorted key entry table).Perm ((key, entry) :: table) := by
  induction table with
  | nil => exact List.Perm.refl _
  | cons first table induction =>
      obtain ⟨name, old⟩ := first
      rw [insertSorted]
      split
      · exact List.Perm.refl _
      · exact (induction.cons (name, old)).trans (List.Perm.swap _ _ table)

theorem sorted_perm (table : Table Entry) : table.sorted.Perm table := by
  induction table with
  | nil => exact List.Perm.refl _
  | cons first table induction =>
      obtain ⟨name, entry⟩ := first
      exact (insert_sorted_perm name entry (sorted table)).trans (induction.cons (name, entry))

theorem find_set (table : Table Entry) (key name : Bytes) (entry : Entry) :
    (table.set key entry).find? name = if key = name then some entry else table.find? name := by
  induction table with
  | nil => rfl
  | cons first table induction =>
      obtain ⟨other, old⟩ := first
      rw [set]
      split
      · rename_i same
        rw [find?, find?, same]
        split <;> rfl
      · rename_i different
        rw [find?, find?, induction]
        split
        · rename_i found
          rw [if_neg]
          rintro rfl
          exact different found
        · rfl

theorem set_fresh (fresh : key ∉ table.map Prod.fst) : table.set key entry = table ++ [(key, entry)] := by
  induction table with
  | nil => rfl
  | cons first table induction =>
      obtain ⟨name, old⟩ := first
      rw [List.map_cons, List.mem_cons, not_or] at fresh
      rw [set, if_neg (Ne.symm fresh.1), induction fresh.2, List.cons_append]

theorem set_all (distinct : ((table ++ other).map Prod.fst).Nodup) :
    other.foldl (fun table entry => table.set entry.1 entry.2) table = table ++ other := by
  induction other generalizing table with
  | nil => exact (List.append_nil table).symm
  | cons entry other induction =>
      have fresh : entry.1 ∉ table.map Prod.fst := by
        rw [List.map_append, List.map_cons, List.nodup_append] at distinct
        intro member
        exact distinct.2.2 entry.1 member entry.1 (by simp) rfl
      rw [List.foldl_cons, set_fresh fresh, induction] <;>
        rw [List.append_assoc, List.singleton_append]
      exact distinct

end Table
end ExprCompiler
