import JsonShape.Description.Basic

/-!
# The first fault of a description

What may be wrong with a node is said without looking at other nodes (`fault?`): its type is
unknown, it is a leaf with fields, or it is an object without them. The nodes that count are those
that can be reached through the fields of object nodes (`Reaches`). `nodes` lists them, each before
its fields and fields in order of their names.

A description is a schema exactly if none of these nodes is faulty, and otherwise it is refused for
the first of them that is. A root is refused in the same way, and beside that only if it is a leaf.
-/

namespace JsonShape

namespace Description

/-- What is wrong with a node, whatever its fields are. -/
def fault? : Description → Option Error
  | .node typeName fields _ _ =>
      match Json.Kind.ofSpelling? typeName with
      | none => some (.invalidType typeName)
      | some .string => fields.map fun _ => .fieldsOnLeaf .string
      | some .number => fields.map fun _ => .fieldsOnLeaf .number
      | some .object => if fields.isNone then some .missingFields else none

/-- The fields of an object node. -/
def inside : Description → List (String × Description)
  | .node typeName fields _ _ =>
      if typeName = Json.Kind.object.spelling then fields.getD [] else []

/-- The second node is the first, or stands below it with object nodes on the way. -/
inductive Reaches : Description → Description → Prop
  | self (node : Description) : Reaches node node
  | inside {node last : Description} {name : String} {next : Description}
      (isInside : (name, next) ∈ node.inside) (further : Reaches next last) : Reaches node last

mutual

/-- The nodes that a description reaches, each before its fields, and fields in order of their
names. -/
def nodes : Description → List Description
  | .node typeName none isNullable isOptional => [.node typeName none isNullable isOptional]
  | .node typeName (some members) isNullable isOptional =>
      .node typeName (some members) isNullable isOptional ::
        if typeName = Json.Kind.object.spelling then
          (Members.sorted (memberNodes members)).flatMap Prod.snd
        else []

def memberNodes : List (String × Description) → List (String × List Description)
  | [] => []
  | (name, description) :: rest => (name, nodes description) :: memberNodes rest

end

section Nodes

variable {members : List (String × Description)} {typeName : String}
  {isNullable isOptional : Option Bool} {description found : Description}

theorem memberNodes_eq_map (members : List (String × Description)) :
    memberNodes members = members.map fun member => (member.1, member.2.nodes) := by
  induction members with
  | nil => rfl
  | cons member rest ih => rw [memberNodes, ih, List.map_cons]

/-- Fields that are in order of their names are listed as they stand. -/
theorem nodes_object (ordered : (Members.names members).Pairwise (· < ·)) :
    (node Json.Kind.object.spelling (some members) isNullable isOptional).nodes =
      .node Json.Kind.object.spelling (some members) isNullable isOptional ::
        members.flatMap fun member => member.2.nodes := by
  have inOrder : Members.sorted (memberNodes members) = memberNodes members := by
    apply Members.sorted_eq_self
    rw [memberNodes_eq_map, Members.names, List.map_map]
    exact ordered
  rw [nodes, if_pos rfl, inOrder, memberNodes_eq_map, List.flatMap_map]

theorem nodes_of_ne_object (other : typeName ≠ Json.Kind.object.spelling)
    (fields : Option (List (String × Description))) :
    (node typeName fields isNullable isOptional).nodes =
      [.node typeName fields isNullable isOptional] := by
  cases fields with
  | none => rw [nodes]
  | some members => rw [nodes, if_neg other]

theorem exists_of_mem_inside {fields : Option (List (String × Description))}
    {member : String × Description}
    (isInside : member ∈ (node typeName fields isNullable isOptional).inside) :
    ∃ members, fields = some members ∧ member ∈ members := by
  rw [inside] at isInside
  split at isInside
  · cases fields with
    | none => cases isInside
    | some members => exact ⟨members, rfl, isInside⟩
  · cases isInside

theorem mem_nodes_iff_inside (wellFormed : description.WellFormed) :
    found ∈ description.nodes ↔
      found = description ∨ ∃ member ∈ description.inside, found ∈ member.2.nodes := by
  rcases description with ⟨typeName, fields, isNullable, isOptional⟩
  by_cases isObject : typeName = Json.Kind.object.spelling
  · subst isObject
    cases fields with
    | none => simp [nodes, inside]
    | some members => simp [nodes_object wellFormed.1, inside]
  · simp [nodes_of_ne_object isObject, inside, isObject]

theorem reaches_iff_inside :
    description.Reaches found ↔
      found = description ∨ ∃ member ∈ description.inside, member.2.Reaches found := by
  constructor
  · intro reached
    cases reached with
    | self => exact .inl rfl
    | inside isInside further => exact .inr ⟨_, isInside, further⟩
  · rintro (rfl | ⟨member, isInside, further⟩)
    · exact .self found
    · exact .inside isInside further

/-- The nodes that are listed are those that are reached. -/
theorem mem_nodes_iff (wellFormed : description.WellFormed) :
    found ∈ description.nodes ↔ description.Reaches found := by
  induction description using induct with
  | node typeName fields isNullable isOptional ih =>
      rw [mem_nodes_iff_inside wellFormed, reaches_iff_inside]
      apply or_congr_right
      apply exists_congr
      intro member
      apply and_congr_right
      intro isInside
      rcases exists_of_mem_inside isInside with ⟨members, rfl, isMember⟩
      exact ih members rfl member isMember (wellFormedMembers_iff.mp wellFormed.2 member isMember)

end Nodes

/-- The error of a result that is none. -/
def error? {Value : Type} : Except Error Value → Option Error
  | .ok _ => none
  | .error error => some error

theorem error?_toMembers {members : List (String × Description)}
    (first : ∀ member ∈ members, error? member.2.toField = member.2.nodes.findSome? fault?) :
    error? (toMembers members) =
      (members.flatMap fun member => member.2.nodes).findSome? fault? := by
  induction members with
  | nil => rfl
  | cons member rest ih =>
      have here := first member List.mem_cons_self
      have later := ih fun other isMember => first other (List.mem_cons_of_mem _ isMember)
      rw [List.flatMap_cons, List.findSome?_append, ← here, ← later, toMembers]
      cases member.2.toField with
      | error error => rfl
      | ok field => cases toMembers rest <;> rfl

/-- A description is refused for its first fault. -/
theorem error?_toField {description : Description} (wellFormed : description.WellFormed) :
    error? description.toField = description.nodes.findSome? fault? := by
  induction description using induct with
  | node typeName fields isNullable isOptional ih =>
      cases known : Json.Kind.ofSpelling? typeName with
      | none =>
          have other : typeName ≠ Json.Kind.object.spelling := by
            rintro rfl
            simp at known
          rw [nodes_of_ne_object other, List.findSome?_singleton, toField.eq_def]
          simp only [fault?, known, error?]
      | some kind =>
          rw [Json.Kind.ofSpelling?_eq_some_iff] at known
          subst known
          cases kind with
          | string => cases fields <;> rfl
          | number => cases fields <;> rfl
          | object =>
              cases fields with
              | none => rfl
              | some members =>
                  have membersWellFormed := wellFormedMembers_iff.mp wellFormed.2
                  have each := error?_toMembers fun member isMember =>
                    ih members rfl member isMember (membersWellFormed member isMember)
                  rw [nodes_object wellFormed.1, List.findSome?_cons, ← each]
                  simp only [toField, Json.Kind.ofSpelling?_spelling, fault?]
                  cases toMembers members <;> rfl

theorem toField_eq_error_iff {description : Description} (wellFormed : description.WellFormed)
    {error : Error} :
    description.toField = .error error ↔ description.nodes.findSome? fault? = some error := by
  rw [← error?_toField wellFormed]
  cases description.toField <;> simp [error?]

theorem exists_toField_eq_ok_iff {description : Description}
    (wellFormed : description.WellFormed) :
    (∃ field, description.toField = .ok field) ↔
      ∀ node, description.Reaches node → node.fault? = none := by
  have faultless : (∃ field, description.toField = .ok field) ↔
      description.nodes.findSome? fault? = none := by
    rw [← error?_toField wellFormed]
    cases description.toField <;> simp [error?]
  rw [faultless, List.findSome?_eq_none_iff]
  exact forall_congr' fun node => by rw [mem_nodes_iff wellFormed]

/-! ### The root of a schema -/

section Root

variable {description : Description}

theorem toSchema_eq_error {error : Error} (refused : description.toField = .error error) :
    description.toSchema = .error error := by
  rw [toSchema, refused]

theorem toSchema_eq_ok_iff {schema : Schema} :
    description.toSchema = .ok schema ↔ description.toField = .ok schema.toField := by
  rw [toSchema]
  cases description.toField with
  | error error => simp
  | ok field =>
      cases field with
      | leaf type flags => simp [Schema.toField]
      | object members flags =>
          rcases schema with ⟨others, otherFlags⟩
          simp [Schema.toField]

/-- No node has the fault that only a root can have. -/
theorem fault?_ne_rootNotObject (node : Description) (type : LeafType) :
    node.fault? ≠ some (.rootNotObject type) := by
  rcases node with ⟨typeName, fields, isNullable, isOptional⟩
  rw [fault?]
  split
  · simp
  · cases fields <;> simp
  · cases fields <;> simp
  · cases fields <;> simp

/-- What is said as a leaf is a leaf without fields. -/
theorem toField_eq_leaf {type : LeafType} {flags : Flags}
    (said : description.toField = .ok (.leaf type flags)) :
    ∃ isNullable isOptional, description = .node type.spelling none isNullable isOptional := by
  rcases description with ⟨typeName, fields, isNullable, isOptional⟩
  rcases toField_eq_ok_iff.mp said with
    ⟨other, rfl, rfl, same⟩ | ⟨members, inner, -, -, -, different⟩
  · cases same
    exact ⟨isNullable, isOptional, rfl⟩
  · cases different

/-- A root is refused as a leaf exactly if it is a leaf without a fault. -/
theorem toSchema_eq_rootNotObject_iff (wellFormed : description.WellFormed) {type : LeafType} :
    description.toSchema = .error (.rootNotObject type) ↔
      ∃ isNullable isOptional, description = .node type.spelling none isNullable isOptional := by
  constructor
  · intro refused
    cases said : description.toField with
    | error error =>
        rw [toSchema_eq_error said] at refused
        cases refused
        rw [toField_eq_error_iff wellFormed] at said
        rcases List.exists_of_findSome?_eq_some said with ⟨node, -, isFault⟩
        exact absurd isFault (fault?_ne_rootNotObject node type)
    | ok field =>
        cases field with
        | object members flags => simp [toSchema, said] at refused
        | leaf other flags =>
            simp only [toSchema, said, Except.error.injEq, Error.rootNotObject.injEq] at refused
            exact toField_eq_leaf (refused ▸ said)
  · rintro ⟨isNullable, isOptional, rfl⟩
    cases type <;> rfl

end Root

/-- A description is a schema exactly if no node that it reaches is faulty, and otherwise it is
refused for the first of them that is, where a node comes before its fields and fields are in order
of their names. As a root it is refused for the same fault, beside that exactly if it is a leaf
without a fault, and in all other cases it is the object node that it is elsewhere. -/
theorem toField_eq_error_iff_first_fault {description : Description}
    (wellFormed : description.WellFormed) :
    ((∃ field, description.toField = .ok field) ↔
        ∀ node, description.Reaches node → node.fault? = none) ∧
      (∀ error, description.toField = .error error ↔
        ∃ before node after, description.nodes = before ++ node :: after ∧
          node.fault? = some error ∧ ∀ earlier ∈ before, earlier.fault? = none) ∧
      (∀ node, node ∈ description.nodes ↔ description.Reaches node) ∧
      (∀ error, description.toField = .error error → description.toSchema = .error error) ∧
      (∀ type, description.toSchema = .error (.rootNotObject type) ↔
        ∃ isNullable isOptional, description = .node type.spelling none isNullable isOptional) ∧
      ∀ schema, description.toSchema = .ok schema ↔ description.toField = .ok schema.toField := by
  refine ⟨exists_toField_eq_ok_iff wellFormed, fun error => ?_,
    fun node => mem_nodes_iff wellFormed, fun error => toSchema_eq_error,
    fun type => toSchema_eq_rootNotObject_iff wellFormed, fun schema => toSchema_eq_ok_iff⟩
  rw [toField_eq_error_iff wellFormed, List.findSome?_eq_some_iff]

/-- A description with three faults, and a fourth below a leaf, where no node is reached. The first
is the fault of the leaf, which comes before the fields of the root behind it. -/
theorem toField_eq_error_iff_first_fault_nested :
    let below : Description := .node "boolean" none none none
    let leaf : Description := .node "number" (some [("x", below)]) none (some false)
    let first : Description := .node "object" (some [("é", leaf)]) (some true) none
    let root : Description := .node "object"
      (some [("", .node "string" none none none), ("a", first), ("b", below),
        ("c", .node "object" none none none)]) none none
    root.WellFormed ∧ root.toField = .error (.fieldsOnLeaf .number) ∧
      (¬∃ field, root.toField = .ok field) ∧
      (∃ before node after, root.nodes = before ++ node :: after ∧
        node.fault? = some (.fieldsOnLeaf .number) ∧ ∀ earlier ∈ before, earlier.fault? = none) ∧
      root.toSchema = .error (.fieldsOnLeaf .number) ∧
      below.toField = .error (.invalidType "boolean") := by
  intro below leaf first root
  have firstWellFormed : first.WellFormed := ⟨by decide, ⟨by decide, trivial, trivial⟩, trivial⟩
  have wellFormed : root.WellFormed :=
    ⟨by decide, trivial, firstWellFormed, trivial, trivial, trivial⟩
  have refused : root.toField = .error (.fieldsOnLeaf .number) := rfl
  rcases toField_eq_error_iff_first_fault wellFormed with ⟨-, refusedIff, -, asRoot, -, -⟩
  refine ⟨wellFormed, refused, ?_, (refusedIff _).mp refused, asRoot _ refused, rfl⟩
  rw [refused]
  simp

end Description

end JsonShape
