/-!
# Named members

Declared fields, object members and descriptions are all lists of named values. A name is looked
up with `List.lookup`, so the first entry of a name counts. This module builds such lists from
pairs in which a name may repeat:

* `Members.ofPairs` keeps the order of first mention, and the last value given for a name;
* `Members.sorted` orders the entries by name, again with the last value given for a name.

Both give distinct names (`names_ofPairs_nodup`, `sorted_pairwise`). Names are compared by code
points, which is the order of their UTF-8 bytes. With distinct names, what is found for a name is
what stands beside it (`lookup_eq_some_iff_mem`), and sorted members are determined by what is found
for each name (`eq_of_lookup_eq`).
-/

namespace JsonShape

namespace Members

universe u v

variable {Value : Type u}

def names (members : List (String × Value)) : List String :=
  members.map Prod.fst

/-- Replaces the value of a name where it stands, or adds the name at the end. -/
def put (name : String) (value : Value) : List (String × Value) → List (String × Value)
  | [] => [(name, value)]
  | (other, old) :: rest =>
      if other = name then (name, value) :: rest else (other, old) :: put name value rest

/-- The pairs as members: a name stands where it was first given and has the value last given. -/
def ofPairs (pairs : List (String × Value)) : List (String × Value) :=
  pairs.foldl (fun members pair => put pair.1 pair.2 members) []

/-- Replaces the value of a name, or adds the name before the first greater one. -/
def insert (name : String) (value : Value) : List (String × Value) → List (String × Value)
  | [] => [(name, value)]
  | (other, old) :: rest =>
      if name < other then (name, value) :: (other, old) :: rest
      else if other = name then (name, value) :: rest
      else (other, old) :: insert name value rest

/-- The pairs ordered by name, with the value last given for each name. -/
def sorted (pairs : List (String × Value)) : List (String × Value) :=
  pairs.foldl (fun members pair => insert pair.1 pair.2 members) []

/-- Some names in order, each once. -/
def sortedNames (given : List String) : List String :=
  names (sorted (given.map fun name => (name, ())))

@[simp]
theorem names_nil : names ([] : List (String × Value)) = [] := rfl

@[simp]
theorem names_cons (name : String) (value : Value) (rest : List (String × Value)) :
    names ((name, value) :: rest) = name :: names rest := rfl

section Lookup

variable {name : String} {value : Value} {members : List (String × Value)}

theorem mem_names_of_mem (member : (name, value) ∈ members) : name ∈ names members :=
  List.mem_map_of_mem member

theorem mem_of_lookup (found : members.lookup name = some value) : (name, value) ∈ members := by
  rcases List.lookup_eq_some_iff.mp found with ⟨before, after, rfl, -⟩
  simp

theorem lookup_eq_none_iff_not_mem : members.lookup name = none ↔ name ∉ names members := by
  rw [List.lookup_eq_none_iff, names, List.mem_map, not_exists]
  apply forall_congr'
  intro member
  rw [not_and, bne_iff_ne]
  exact ⟨fun differ inside same => differ inside same.symm,
    fun differ inside same => differ inside same.symm⟩

theorem exists_lookup_of_mem_names (declared : name ∈ names members) :
    ∃ value, members.lookup name = some value := by
  cases found : members.lookup name with
  | some value => exact ⟨value, rfl⟩
  | none => exact absurd declared (lookup_eq_none_iff_not_mem.mp found)

theorem lookup_eq_some_iff_mem (distinct : (names members).Nodup) :
    members.lookup name = some value ↔ (name, value) ∈ members := by
  constructor
  · exact mem_of_lookup
  · intro member
    rcases List.append_of_mem member with ⟨before, after, rfl⟩
    refine List.lookup_eq_some_iff.mpr ⟨before, after, rfl, ?_⟩
    intro earlier inside
    rw [bne_iff_ne]
    rintro rfl
    rw [names, List.map_append, List.nodup_append] at distinct
    exact distinct.2.2 _ (List.mem_map_of_mem inside) _ (by simp) rfl

theorem lookup_map {Other : Type v} (change : Value → Other) (members : List (String × Value))
    (name : String) :
    (members.map fun member => (member.1, change member.2)).lookup name =
      (members.lookup name).map change := by
  induction members with
  | nil => rfl
  | cons member rest ih =>
      rw [List.map_cons, List.lookup_cons, List.lookup_cons, ih]
      cases name == member.1 <;> rfl

end Lookup

theorem mem_names_put {name other : String} {value : Value} {members : List (String × Value)} :
    other ∈ names (put name value members) ↔ other = name ∨ other ∈ names members := by
  induction members with
  | nil => simp [put]
  | cons head rest ih =>
      obtain ⟨first, old⟩ := head
      by_cases same : first = name
      · simp [put, same]
      · simp [put, same, ih, or_left_comm]

theorem names_put_nodup {name : String} {value : Value} {members : List (String × Value)}
    (distinct : (names members).Nodup) : (names (put name value members)).Nodup := by
  induction members with
  | nil => simp [put]
  | cons head rest ih =>
      obtain ⟨first, old⟩ := head
      simp only [names_cons, List.nodup_cons] at distinct
      by_cases same : first = name
      · subst same
        simpa [put] using distinct
      · simp only [put, same, if_false, names_cons, List.nodup_cons]
        refine ⟨?_, ih distinct.2⟩
        rw [mem_names_put]
        rintro (equal | member)
        · exact same equal
        · exact distinct.1 member

theorem names_ofPairs_nodup (pairs : List (String × Value)) : (names (ofPairs pairs)).Nodup := by
  suffices general : ∀ members : List (String × Value), (names members).Nodup →
      (names (pairs.foldl (fun members pair => put pair.1 pair.2 members) members)).Nodup by
    exact general [] (by simp)
  induction pairs with
  | nil => exact fun _ distinct => distinct
  | cons pair rest ih => exact fun members distinct => ih _ (names_put_nodup distinct)

theorem lookup_put (name other : String) (value : Value) (members : List (String × Value)) :
    (put name value members).lookup other =
      if other = name then some value else members.lookup other := by
  induction members with
  | nil =>
      by_cases same : other = name
      · simp [put, same]
      · simp [put, same, List.lookup_cons, beq_eq_false_iff_ne.2 same]
  | cons head rest ih =>
      obtain ⟨first, old⟩ := head
      by_cases same : first = name
      · subst same
        by_cases sought : other = first
        · simp [put, sought]
        · simp [put, sought, List.lookup_cons, beq_eq_false_iff_ne.2 sought]
      · by_cases sought : other = first
        · subst sought
          simp [put, same]
        · simp [put, same, List.lookup_cons, beq_eq_false_iff_ne.2 sought, ih]

theorem mem_names_insert {name other : String} {value : Value}
    {members : List (String × Value)} :
    other ∈ names (insert name value members) ↔ other = name ∨ other ∈ names members := by
  induction members with
  | nil => simp [insert]
  | cons head rest ih =>
      obtain ⟨first, old⟩ := head
      rw [insert]
      split
      · simp
      · split
        · rename_i same
          simp [same]
        · simp [ih, or_left_comm]

theorem lt_of_not_lt_of_ne {first second : String} (notBefore : ¬first < second)
    (different : second ≠ first) : second < first := by
  by_cases before : second < first
  · exact before
  · have same := String.le_antisymm (String.not_lt.1 notBefore) (String.not_lt.1 before)
    exact absurd same different

theorem pairwise_insert {name : String} {value : Value} {members : List (String × Value)}
    (ordered : (names members).Pairwise (· < ·)) :
    (names (insert name value members)).Pairwise (· < ·) := by
  induction members with
  | nil => simp [insert]
  | cons head rest ih =>
      obtain ⟨first, old⟩ := head
      have parts := List.pairwise_cons.1 ordered
      rw [insert]
      split
      · rename_i before
        refine List.pairwise_cons.2 ⟨?_, ordered⟩
        intro other member
        rcases List.mem_cons.1 member with same | later
        · exact same ▸ before
        · exact String.lt_trans before (parts.1 other later)
      · rename_i notBefore
        split
        · rename_i same
          exact same ▸ ordered
        · rename_i different
          refine List.pairwise_cons.2 ⟨?_, ih parts.2⟩
          intro other member
          rcases mem_names_insert.1 member with same | later
          · exact same ▸ lt_of_not_lt_of_ne notBefore different
          · exact parts.1 other later

theorem insert_perm {name : String} {value : Value} {members : List (String × Value)}
    (fresh : name ∉ names members) :
    (insert name value members).Perm ((name, value) :: members) := by
  induction members with
  | nil => exact .refl _
  | cons head rest ih =>
      obtain ⟨first, old⟩ := head
      simp only [names_cons, List.mem_cons, not_or] at fresh
      rw [insert]
      split
      · exact .refl _
      · rw [if_neg fun same => fresh.1 same.symm]
        exact ((ih fresh.2).cons _).trans (.swap _ _ _)

/-- With distinct names, sorting loses nothing. -/
theorem sorted_perm {pairs : List (String × Value)} (distinct : (names pairs).Nodup) :
    (sorted pairs).Perm pairs := by
  suffices general : ∀ members : List (String × Value), (names (members ++ pairs)).Nodup →
      (pairs.foldl (fun members pair => insert pair.1 pair.2 members) members).Perm
        (members ++ pairs) by
    exact general [] distinct
  clear distinct
  induction pairs with
  | nil =>
      intro members _
      rw [List.append_nil]
      exact .refl members
  | cons pair rest ih =>
      intro members distinct
      have moved : (pair :: members ++ rest).Perm (members ++ pair :: rest) :=
        List.perm_middle.symm
      have distinctMoved := ((moved.map Prod.fst).nodup_iff).mpr distinct
      have fresh : pair.1 ∉ names members := by
        intro member
        apply (List.nodup_cons.mp distinctMoved).1
        exact List.map_append ▸ List.mem_append_left _ member
      have grown : (insert pair.1 pair.2 members).Perm (pair :: members) := insert_perm fresh
      have inserted := grown.append_right rest
      have distinctInserted := ((inserted.map Prod.fst).nodup_iff).mpr distinctMoved
      exact (ih _ distinctInserted).trans (inserted.trans moved)

theorem insert_eq_append {name : String} {value : Value} {members : List (String × Value)}
    (last : ∀ other ∈ names members, other < name) :
    insert name value members = members ++ [(name, value)] := by
  induction members with
  | nil => rfl
  | cons head rest ih =>
      obtain ⟨first, old⟩ := head
      have before : first < name := last first (by simp)
      have different : first ≠ name := by
        rintro rfl
        exact String.lt_irrefl first before
      rw [insert, if_neg (String.lt_asymm before), if_neg different,
        ih fun other member => last other (by simp [member]), List.cons_append]

/-- Members in order of their names are sorted already. -/
theorem sorted_eq_self {pairs : List (String × Value)}
    (ordered : (names pairs).Pairwise (· < ·)) : sorted pairs = pairs := by
  suffices general : ∀ members : List (String × Value),
      (names (members ++ pairs)).Pairwise (· < ·) →
        pairs.foldl (fun members pair => insert pair.1 pair.2 members) members =
          members ++ pairs by
    exact general [] ordered
  clear ordered
  induction pairs with
  | nil => exact fun members _ => (List.append_nil members).symm
  | cons pair rest ih =>
      intro members ordered
      rw [names, List.map_append, List.map_cons] at ordered
      have last : ∀ other ∈ names members, other < pair.1 := fun other member =>
        (List.pairwise_append.mp ordered).2.2 other member pair.1 List.mem_cons_self
      rw [List.foldl_cons, insert_eq_append last, ih]
      · simp
      · simpa [names] using ordered

theorem insert_map {Other : Type v} (change : Value → Other) (name : String) (value : Value)
    (members : List (String × Value)) :
    insert name (change value) (members.map fun member => (member.1, change member.2)) =
      (insert name value members).map fun member => (member.1, change member.2) := by
  induction members with
  | nil => rfl
  | cons head rest ih =>
      rw [List.map_cons, insert, insert]
      split
      · rfl
      · split
        · rfl
        · rw [ih, List.map_cons]

theorem sorted_map {Other : Type v} (change : Value → Other) (pairs : List (String × Value)) :
    sorted (pairs.map fun pair => (pair.1, change pair.2)) =
      (sorted pairs).map fun pair => (pair.1, change pair.2) := by
  suffices general : ∀ members : List (String × Value),
      (pairs.map fun pair => (pair.1, change pair.2)).foldl
          (fun members pair => insert pair.1 pair.2 members)
          (members.map fun pair => (pair.1, change pair.2)) =
        (pairs.foldl (fun members pair => insert pair.1 pair.2 members) members).map
          fun pair => (pair.1, change pair.2) by
    exact general []
  induction pairs with
  | nil => exact fun _ => rfl
  | cons pair rest ih =>
      intro members
      rw [List.map_cons, List.foldl_cons, List.foldl_cons, ← ih]
      exact congrArg (fun first => List.foldl _ first _) (insert_map change pair.1 pair.2 members)

/-- The names of sorted members ascend. -/
theorem sorted_pairwise (pairs : List (String × Value)) :
    (names (sorted pairs)).Pairwise (· < ·) := by
  suffices general : ∀ members : List (String × Value), (names members).Pairwise (· < ·) →
      (names (pairs.foldl (fun members pair => insert pair.1 pair.2 members)
        members)).Pairwise (· < ·) by
    exact general [] (by simp)
  induction pairs with
  | nil => exact fun _ ordered => ordered
  | cons pair rest ih => exact fun members ordered => ih _ (pairwise_insert ordered)

theorem nodup_of_pairwise {names : List String} (ordered : names.Pairwise (· < ·)) :
    names.Nodup := by
  apply ordered.imp
  rintro name _ before rfl
  exact String.lt_irrefl name before

theorem lookup_sorted {members : List (String × Value)} (distinct : (names members).Nodup)
    (name : String) : (sorted members).lookup name = members.lookup name := by
  apply Option.ext
  intro value
  rw [lookup_eq_some_iff_mem (nodup_of_pairwise (sorted_pairwise members)),
    lookup_eq_some_iff_mem distinct, (sorted_perm distinct).mem_iff]

/-- Members in order of their names are determined by what is found for each name. -/
theorem eq_of_lookup_eq {first second : List (String × Value)}
    (firstOrdered : (names first).Pairwise (· < ·))
    (secondOrdered : (names second).Pairwise (· < ·))
    (same : ∀ name, first.lookup name = second.lookup name) : first = second := by
  have distinct := nodup_of_pairwise firstOrdered
  have otherDistinct := nodup_of_pairwise secondOrdered
  have apart (one other : String × Value) (different : one.1 ≠ other.1) : one ≠ other :=
    fun equal => different (congrArg Prod.fst equal)
  have reordered : first.Perm second := by
    apply (List.perm_ext_iff_of_nodup (List.Pairwise.of_map Prod.fst apart distinct)
      (List.Pairwise.of_map Prod.fst apart otherDistinct)).mpr
    rintro ⟨name, value⟩
    rw [← lookup_eq_some_iff_mem distinct, ← lookup_eq_some_iff_mem otherDistinct, same]
  apply List.Perm.eq_of_pairwise _ (List.pairwise_map.mp firstOrdered)
    (List.pairwise_map.mp secondOrdered) reordered
  intro one other _ _ before after
  exact absurd after (String.lt_asymm before)

end Members

end JsonShape
