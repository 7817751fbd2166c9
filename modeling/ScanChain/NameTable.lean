/-
# ScanChain.NameTable — values under names, in the order of the names

A table holds one value for each of its names, ascending. Names are ordered by code points, which is
also the order of their UTF-8 bytes. A name that is inserted again keeps its place and gets the new
value, so a table is determined by what was last inserted under each name.
-/

namespace ScanChain

/-- Values under distinct names, in ascending order of the names. -/
structure NameTable (α : Type) where
  entries : List (String × α)
  ascending : entries.Pairwise (fun a b => a.1 < b.1)

namespace NameTable

variable {α : Type}

/-- The table without names. -/
def empty : NameTable α := ⟨[], .nil⟩

instance : Inhabited (NameTable α) := ⟨empty⟩

/-- Puts a value under a name into an ascending list. -/
def insertInto (name : String) (value : α) : List (String × α) → List (String × α)
  | [] => [(name, value)]
  | entry :: rest =>
    if name < entry.1 then (name, value) :: entry :: rest
    else if name = entry.1 then (name, value) :: rest
    else entry :: insertInto name value rest

theorem mem_insertInto {name : String} {value : α} {entries : List (String × α)} {a : String × α}
    (h : a ∈ insertInto name value entries) : a = (name, value) ∨ a ∈ entries := by
  induction entries with
  | nil => simpa [insertInto] using h
  | cons entry rest ih =>
    simp only [insertInto] at h
    split at h
    · simpa using h
    · split at h
      · simp only [List.mem_cons] at h ⊢
        exact h.imp id .inr
      · simp only [List.mem_cons] at h ⊢
        rcases h with h | h
        · exact .inr (.inl h)
        · exact (ih h).imp id .inr

theorem pairwise_insertInto (name : String) (value : α) {entries : List (String × α)}
    (h : entries.Pairwise (fun a b => a.1 < b.1)) :
    (insertInto name value entries).Pairwise (fun a b => a.1 < b.1) := by
  induction entries with
  | nil => simp [insertInto]
  | cons entry rest ih =>
    have below {a} (ha : a ∈ rest) : entry.1 < a.1 := List.rel_of_pairwise_cons h ha
    simp only [insertInto]
    split
    · rename_i before
      refine .cons (fun a ha => ?_) h
      rcases List.mem_cons.mp ha with rfl | ha
      · exact before
      · exact String.lt_trans before (below ha)
    · split
      · rename_i same
        exact .cons (fun a ha => same ▸ below ha) h.of_cons
      · rename_i notBefore notSame
        refine .cons (fun a ha => ?_) (ih h.of_cons)
        rcases mem_insertInto ha with rfl | ha
        · have le := String.not_lt.mp notBefore
          exact Decidable.byContradiction fun notAfter =>
            notSame (String.le_antisymm (String.not_lt.mp notAfter) le)
        · exact below ha

/-- The table with a value put under a name. -/
def insert (table : NameTable α) (name : String) (value : α) : NameTable α :=
  ⟨insertInto name value table.entries, pairwise_insertInto name value table.ascending⟩

/-- The value under a name. -/
def find? (table : NameTable α) (name : String) : Option α :=
  (table.entries.find? (·.1 = name)).map (·.2)

/-- The names in order. -/
def names (table : NameTable α) : List String := table.entries.map (·.1)

/-- The table of a list of entries; of two with one name the later counts. -/
def ofList (entries : List (String × α)) : NameTable α :=
  entries.foldl (fun table entry => table.insert entry.1 entry.2) empty

end NameTable
end ScanChain
