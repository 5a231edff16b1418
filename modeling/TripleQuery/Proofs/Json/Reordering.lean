import Mathlib.Data.List.Perm.Basic
import TripleQuery.Json.Basic

/-!
# The order of members

An object means the same in whatever order its members are written. `Json.Reordered` relates a value
to those that differ from it in nothing but this order, in its objects at any depth. A reader that
asks for members by name cannot tell them apart as long as no name is repeated: the member it asks
for is there once and has the same value, up to the order of members in that
(`MembersReordered.required`, `MembersReordered.optional`).
-/

namespace TripleQuery.Json

/-! ## Reordering -/

mutual
/-- The second value is the first but for the order of the members of its objects. -/
def Reordered : Json → Json → Prop
  | .array items, k => ∃ others, k = .array others ∧ ItemsReordered items others
  | .object members, k => ∃ others, k = .object others ∧ MembersReordered members others
  | j, k => k = j

/-- The items are the same in the same order, but for the order of the members in each. -/
def ItemsReordered : List Json → List Json → Prop
  | [], items => items = []
  | v :: rest, items => ∃ w others, items = w :: others ∧ v.Reordered w ∧ ItemsReordered rest others

/-- The members are the same in any order, but for the order of the members in the value of each. -/
def MembersReordered : List (String × Json) → List (String × Json) → Prop
  | [], members => members = []
  | (name, v) :: rest, members =>
    ∃ w others, members.Perm ((name, w) :: others) ∧ v.Reordered w ∧ MembersReordered rest others
end

mutual
theorem Reordered.refl : (j : Json) → j.Reordered j
  | .array items => ⟨items, rfl, ItemsReordered.refl items⟩
  | .object members => ⟨members, rfl, MembersReordered.refl members⟩
  | .null | .bool _ | .integer _ | .decimal _ | .string _ | .unreadable => rfl

theorem ItemsReordered.refl : (items : List Json) → ItemsReordered items items
  | [] => rfl
  | v :: rest => ⟨v, rest, rfl, Reordered.refl v, ItemsReordered.refl rest⟩

theorem MembersReordered.refl : (members : List (String × Json)) → MembersReordered members members
  | [] => rfl
  | (_, v) :: rest => ⟨v, rest, .refl _, Reordered.refl v, MembersReordered.refl rest⟩
end

mutual
/-- The value with the members of its objects in the opposite order, at any depth. -/
def reversed : Json → Json
  | .array items => .array (reversedItems items)
  | .object members => .object (reversedMembers members)
  | j => j

/-- The items in the same order, each with its members in the opposite order. -/
def reversedItems : List Json → List Json
  | [] => []
  | v :: rest => v.reversed :: reversedItems rest

/-- The members in the opposite order, and so in the value of each. -/
def reversedMembers : List (String × Json) → List (String × Json)
  | [] => []
  | (name, v) :: rest => reversedMembers rest ++ [(name, v.reversed)]
end

mutual
theorem Reordered.reversed : (j : Json) → j.Reordered j.reversed
  | .array items => ⟨_, rfl, ItemsReordered.reversed items⟩
  | .object members => ⟨_, rfl, MembersReordered.reversed members⟩
  | .null | .bool _ | .integer _ | .decimal _ | .string _ | .unreadable => rfl

theorem ItemsReordered.reversed : (items : List Json) → ItemsReordered items (reversedItems items)
  | [] => rfl
  | v :: rest => ⟨_, _, rfl, Reordered.reversed v, ItemsReordered.reversed rest⟩

theorem MembersReordered.reversed :
    (members : List (String × Json)) → MembersReordered members (reversedMembers members)
  | [] => rfl
  | (_, v) :: rest =>
    ⟨_, _, List.perm_append_singleton _ _, Reordered.reversed v, MembersReordered.reversed rest⟩
end

/-! ## Members by name -/

section

variable {members others : List (String × Json)} {name : String} {v : Json}

theorem MembersReordered.names (h : MembersReordered members others) :
    (others.map (·.1)).Perm (members.map (·.1)) := by
  induction members generalizing others with
  | nil =>
    cases h
    exact .nil
  | cons e rest ih =>
    obtain ⟨w, tail, hperm, -, hrest⟩ := h
    exact (hperm.map _).trans ((ih hrest).cons _)

theorem MembersReordered.exists_mem (h : MembersReordered members others)
    (hmem : (name, v) ∈ members) : ∃ w, (name, w) ∈ others ∧ v.Reordered w := by
  induction members generalizing others with
  | nil => cases hmem
  | cons e rest ih =>
    obtain ⟨w, tail, hperm, hw, hrest⟩ := h
    rcases List.mem_cons.1 hmem with rfl | hmem
    · exact ⟨w, hperm.mem_iff.2 List.mem_cons_self, hw⟩
    · obtain ⟨x, hx, hvx⟩ := ih hrest hmem
      exact ⟨x, hperm.mem_iff.2 (List.mem_cons_of_mem _ hx), hvx⟩

theorem MembersReordered.of_singleton (h : MembersReordered [(name, v)] others) :
    ∃ w, others = [(name, w)] ∧ v.Reordered w := by
  obtain ⟨w, tail, hperm, hw, rfl⟩ := h
  exact ⟨w, List.perm_singleton.1 hperm, hw⟩

theorem filter_name_eq_nil (h : name ∉ members.map (·.1)) :
    members.filter (·.1 == name) = [] := by
  refine List.filter_eq_nil_iff.2 fun e he heq => h ?_
  rw [← beq_iff_eq.1 heq]
  exact List.mem_map_of_mem he

/-- Where no name is repeated, the members of a name are the one there is. -/
theorem filter_name (hnodup : (members.map (·.1)).Nodup) (hmem : (name, v) ∈ members) :
    members.filter (·.1 == name) = [(name, v)] := by
  induction members with
  | nil => cases hmem
  | cons e rest ih =>
    obtain ⟨hfresh, hrest⟩ := List.nodup_cons.1 hnodup
    rcases List.mem_cons.1 hmem with rfl | hmem
    · simp [filter_name_eq_nil hfresh]
    · have hne : e.1 ≠ name := by
        rintro rfl
        exact hfresh (List.mem_map_of_mem (f := (·.1)) hmem)
      simp [hne, ih hrest hmem]

theorem MembersReordered.exists_filter (h : MembersReordered members others)
    (hnodup : (members.map (·.1)).Nodup) (hmem : (name, v) ∈ members) :
    ∃ w, others.filter (·.1 == name) = [(name, w)] ∧ v.Reordered w := by
  obtain ⟨w, hw, hvw⟩ := h.exists_mem hmem
  exact ⟨w, filter_name (h.names.nodup_iff.2 hnodup) hw, hvw⟩

/-- A member that has to be there is found, whatever the order. -/
theorem MembersReordered.required (h : MembersReordered members others)
    (hnodup : (members.map (·.1)).Nodup) (hmem : (name, v) ∈ members) :
    ∃ w, Json.required name others = some w ∧ v.Reordered w := by
  obtain ⟨w, hw, hvw⟩ := h.exists_filter hnodup hmem
  exact ⟨w, by rw [Json.required, hw], hvw⟩

/-- A member that may be there is found if it is, whatever the order. -/
theorem MembersReordered.optional (h : MembersReordered members others)
    (hnodup : (members.map (·.1)).Nodup) (hmem : (name, v) ∈ members) :
    ∃ w, Json.optional name others = some (some w) ∧ v.Reordered w := by
  obtain ⟨w, hw, hvw⟩ := h.exists_filter hnodup hmem
  exact ⟨w, by rw [Json.optional, hw], hvw⟩

theorem MembersReordered.optional_eq_none (h : MembersReordered members others)
    (hname : name ∉ members.map (·.1)) : Json.optional name others = some none := by
  rw [Json.optional, filter_name_eq_nil (mt h.names.mem_iff.1 hname)]

end

/-! ## Values that can be read whole -/

theorem allMembersReadable_eq_all (members : List (String × Json)) :
    allMembersReadable members = members.all (·.2.isReadable) := by
  induction members with
  | nil => rfl
  | cons e rest ih => rw [allMembersReadable, ih, List.all_cons]

mutual
/-- Whether a value can be read whole does not depend on the order of members. -/
theorem Reordered.isReadable_eq : {j k : Json} → j.Reordered k → k.isReadable = j.isReadable
  | .array _, _, ⟨_, rfl, h⟩ => by
    rw [isReadable, isReadable, h.allReadable_eq]
  | .object _, _, ⟨_, rfl, h⟩ => by
    rw [isReadable, isReadable, h.allMembersReadable_eq]
  | .null, _, rfl | .bool _, _, rfl | .integer _, _, rfl | .decimal _, _, rfl | .string _, _, rfl
  | .unreadable, _, rfl => rfl

theorem ItemsReordered.allReadable_eq :
    {items others : List Json} → ItemsReordered items others →
      allReadable others = allReadable items
  | [], _, rfl => rfl
  | v :: rest, _, ⟨w, others, rfl, hv, hrest⟩ => by
    rw [allReadable, allReadable, hv.isReadable_eq, hrest.allReadable_eq]

theorem MembersReordered.allMembersReadable_eq :
    {members others : List (String × Json)} → MembersReordered members others →
      allMembersReadable others = allMembersReadable members
  | [], _, rfl => rfl
  | (name, v) :: rest, others, ⟨w, tail, hperm, hv, hrest⟩ => by
    calc allMembersReadable others
        = others.all (·.2.isReadable) := allMembersReadable_eq_all others
      _ = ((name, w) :: tail).all (·.2.isReadable) := hperm.all_eq
      _ = (w.isReadable && allMembersReadable tail) := by
        rw [List.all_cons, allMembersReadable_eq_all]
      _ = (v.isReadable && allMembersReadable rest) := by
        rw [hv.isReadable_eq, hrest.allMembersReadable_eq]
end

end TripleQuery.Json
