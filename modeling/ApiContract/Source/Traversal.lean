import ApiContract.Source.Tree

namespace ApiContract.Source

def Expr.enter (into : Expr → Bool) (e : Expr) (inside : List Expr) : List Expr :=
  e :: if into e then inside else []

mutual

/-- An expression and the expressions inside it; `into` says which ones are entered. -/
def Expr.nodes (into : Expr → Bool) : Expr → List Expr
  | .lit value => Expr.enter into (.lit value) []
  | .path path inner => Expr.enter into (.path path inner) (nodesOfAll into inner)
  | .paren e => Expr.enter into (.paren e) (e.nodes into)
  | .reference e => Expr.enter into (.reference e) (e.nodes into)
  | .negate e => Expr.enter into (.negate e) (e.nodes into)
  | .tuple elements => Expr.enter into (.tuple elements) (nodesOfAll into elements)
  | .array elements => Expr.enter into (.array elements) (nodesOfAll into elements)
  | .record path inner fields rest =>
    Expr.enter into (.record path inner fields rest)
      (nodesOfAll into inner ++ nodesOfFields into fields ++ nodesOfOption into rest)
  | .call callee args =>
    Expr.enter into (.call callee args) (callee.nodes into ++ nodesOfAll into args)
  | .method receiver name inner args =>
    Expr.enter into (.method receiver name inner args)
      (receiver.nodes into ++ nodesOfAll into inner ++ nodesOfAll into args)
  | .field base => Expr.enter into (.field base) (base.nodes into)
  | .index base position =>
    Expr.enter into (.index base position) (base.nodes into ++ position.nodes into)
  | .await e => Expr.enter into (.await e) (e.nodes into)
  | .attempt e => Expr.enter into (.attempt e) (e.nodes into)
  | .assign left right => Expr.enter into (.assign left right) (left.nodes into ++ right.nodes into)
  | .ret value => Expr.enter into (.ret value) (nodesOfOption into value)
  | .closure parts => Expr.enter into (.closure parts) (nodesOfAll into parts)
  | .async body => Expr.enter into (.async body) (nodesOfStmts into body)
  | .branch condition body otherwise =>
    Expr.enter into (.branch condition body otherwise)
      (condition.nodes into ++ nodesOfStmts into body ++ nodesOfOption into otherwise)
  | .cases subject arms =>
    Expr.enter into (.cases subject arms) (subject.nodes into ++ nodesOfArms into arms)
  | .block body => Expr.enter into (.block body) (nodesOfStmts into body)
  | .unchecked body => Expr.enter into (.unchecked body) (nodesOfStmts into body)
  | .json template => Expr.enter into (.json template) []
  | .vec elements => Expr.enter into (.vec elements) []
  | .expansion => Expr.enter into .expansion []
  | .compound parts => Expr.enter into (.compound parts) (nodesOfAll into parts)

def nodesOfAll (into : Expr → Bool) : List Expr → List Expr
  | [] => []
  | e :: rest => e.nodes into ++ nodesOfAll into rest

def nodesOfOption (into : Expr → Bool) : Option Expr → List Expr
  | none => []
  | some e => e.nodes into

def nodesOfFields (into : Expr → Bool) : List FieldInit → List Expr
  | [] => []
  | .mk _ value :: rest => value.nodes into ++ nodesOfFields into rest

def nodesOfArms (into : Expr → Bool) : List Arm → List Expr
  | [] => []
  | .mk inner guard body :: rest =>
    nodesOfAll into inner ++ nodesOfOption into guard ++ body.nodes into ++ nodesOfArms into rest

def nodesOfStmts (into : Expr → Bool) : List Stmt → List Expr
  | [] => []
  | .bind _ inner value otherwise :: rest =>
    nodesOfAll into inner ++ nodesOfOption into value ++ nodesOfOption into otherwise ++
      nodesOfStmts into rest
  | .item item :: rest => nodesOfItem into item ++ nodesOfStmts into rest
  | .expr e _ :: rest => e.nodes into ++ nodesOfStmts into rest
  | .expansion _ _ :: rest => nodesOfStmts into rest

def nodesOfFunction (into : Expr → Bool) : Function → List Expr
  | .mk _ _ _ inner body => nodesOfAll into inner ++ nodesOfStmts into body

def nodesOfMembers (into : Expr → Bool) : List Member → List Expr
  | [] => []
  | .function f :: rest => nodesOfFunction into f ++ nodesOfMembers into rest
  | .other inner :: rest => nodesOfAll into inner ++ nodesOfMembers into rest

def nodesOfItem (into : Expr → Bool) : Item → List Expr
  | .function f => nodesOfFunction into f
  | .struct _ _ _ inner => nodesOfAll into inner
  | .enum _ _ inner => nodesOfAll into inner
  | .declaration _ inner => nodesOfAll into inner
  | .implementation _ _ inner members => nodesOfAll into inner ++ nodesOfMembers into members
  | .imports _ => []
  | .module _ none => []
  | .module _ (some items) => nodesOfItems into items
  | .other inner => nodesOfAll into inner

def nodesOfItems (into : Expr → Bool) : List Item → List Expr
  | [] => []
  | item :: rest => nodesOfItem into item ++ nodesOfItems into rest

end

theorem Expr.mem_enter {into : Expr → Bool} {e x : Expr} {inside : List Expr}
    (h : x ∈ Expr.enter into e inside) : x = e ∨ x ∈ inside := by
  unfold Expr.enter at h
  rcases List.mem_cons.mp h with h | h
  · exact .inl h
  · split at h
    · exact .inr h
    · simp at h

mutual

theorem Expr.sizeOf_le_of_mem_nodes {into : Expr → Bool} (e : Expr) {x : Expr}
    (h : x ∈ e.nodes into) : sizeOf x ≤ sizeOf e := by
  match e with
  | .lit _ | .json _ | .vec _ | .expansion =>
    rw [Expr.nodes] at h
    rcases Expr.mem_enter h with rfl | h
    · exact Nat.le_refl _
    · simp at h
  | .path _ inner | .tuple inner | .array inner | .closure inner | .compound inner =>
    rw [Expr.nodes] at h
    rcases Expr.mem_enter h with rfl | h
    · exact Nat.le_refl _
    · have := sizeOf_le_of_mem_nodesOfAll inner h
      simp only [Expr.path.sizeOf_spec, Expr.tuple.sizeOf_spec, Expr.array.sizeOf_spec,
        Expr.closure.sizeOf_spec, Expr.compound.sizeOf_spec]
      omega
  | .paren e | .reference e | .negate e | .field e | .await e | .attempt e =>
    rw [Expr.nodes] at h
    rcases Expr.mem_enter h with rfl | h
    · exact Nat.le_refl _
    · have := Expr.sizeOf_le_of_mem_nodes e h
      simp only [Expr.paren.sizeOf_spec, Expr.reference.sizeOf_spec, Expr.negate.sizeOf_spec,
        Expr.field.sizeOf_spec, Expr.await.sizeOf_spec, Expr.attempt.sizeOf_spec]
      omega
  | .record _ inner fields rest =>
    rw [Expr.nodes] at h
    rcases Expr.mem_enter h with rfl | h
    · exact Nat.le_refl _
    · simp only [Expr.record.sizeOf_spec]
      rcases List.mem_append.mp h with h | h
      · rcases List.mem_append.mp h with h | h
        · have := sizeOf_le_of_mem_nodesOfAll inner h; omega
        · have := sizeOf_le_of_mem_nodesOfFields fields h; omega
      · have := sizeOf_le_of_mem_nodesOfOption rest h; omega
  | .call callee args =>
    rw [Expr.nodes] at h
    rcases Expr.mem_enter h with rfl | h
    · exact Nat.le_refl _
    · simp only [Expr.call.sizeOf_spec]
      rcases List.mem_append.mp h with h | h
      · have := Expr.sizeOf_le_of_mem_nodes callee h; omega
      · have := sizeOf_le_of_mem_nodesOfAll args h; omega
  | .method receiver _ inner args =>
    rw [Expr.nodes] at h
    rcases Expr.mem_enter h with rfl | h
    · exact Nat.le_refl _
    · simp only [Expr.method.sizeOf_spec]
      rcases List.mem_append.mp h with h | h
      · rcases List.mem_append.mp h with h | h
        · have := Expr.sizeOf_le_of_mem_nodes receiver h; omega
        · have := sizeOf_le_of_mem_nodesOfAll inner h; omega
      · have := sizeOf_le_of_mem_nodesOfAll args h; omega
  | .index a b =>
    rw [Expr.nodes] at h
    rcases Expr.mem_enter h with rfl | h
    · exact Nat.le_refl _
    · simp only [Expr.index.sizeOf_spec]
      rcases List.mem_append.mp h with h | h
      · have := Expr.sizeOf_le_of_mem_nodes a h; omega
      · have := Expr.sizeOf_le_of_mem_nodes b h; omega
  | .assign a b =>
    rw [Expr.nodes] at h
    rcases Expr.mem_enter h with rfl | h
    · exact Nat.le_refl _
    · simp only [Expr.assign.sizeOf_spec]
      rcases List.mem_append.mp h with h | h
      · have := Expr.sizeOf_le_of_mem_nodes a h; omega
      · have := Expr.sizeOf_le_of_mem_nodes b h; omega
  | .ret value =>
    rw [Expr.nodes] at h
    rcases Expr.mem_enter h with rfl | h
    · exact Nat.le_refl _
    · simp only [Expr.ret.sizeOf_spec]
      have := sizeOf_le_of_mem_nodesOfOption value h; omega
  | .async body | .block body | .unchecked body =>
    rw [Expr.nodes] at h
    rcases Expr.mem_enter h with rfl | h
    · exact Nat.le_refl _
    · have := sizeOf_le_of_mem_nodesOfStmts body h
      simp only [Expr.async.sizeOf_spec, Expr.block.sizeOf_spec, Expr.unchecked.sizeOf_spec]
      omega
  | .branch condition body otherwise =>
    rw [Expr.nodes] at h
    rcases Expr.mem_enter h with rfl | h
    · exact Nat.le_refl _
    · simp only [Expr.branch.sizeOf_spec]
      rcases List.mem_append.mp h with h | h
      · rcases List.mem_append.mp h with h | h
        · have := Expr.sizeOf_le_of_mem_nodes condition h; omega
        · have := sizeOf_le_of_mem_nodesOfStmts body h; omega
      · have := sizeOf_le_of_mem_nodesOfOption otherwise h; omega
  | .cases subject arms =>
    rw [Expr.nodes] at h
    rcases Expr.mem_enter h with rfl | h
    · exact Nat.le_refl _
    · simp only [Expr.cases.sizeOf_spec]
      rcases List.mem_append.mp h with h | h
      · have := Expr.sizeOf_le_of_mem_nodes subject h; omega
      · have := sizeOf_le_of_mem_nodesOfArms arms h; omega

theorem sizeOf_le_of_mem_nodesOfAll {into : Expr → Bool} (es : List Expr) {x : Expr}
    (h : x ∈ nodesOfAll into es) : sizeOf x ≤ sizeOf es := by
  match es with
  | [] => simp [nodesOfAll] at h
  | e :: rest =>
    rw [nodesOfAll] at h
    simp only [List.cons.sizeOf_spec]
    rcases List.mem_append.mp h with h | h
    · have := Expr.sizeOf_le_of_mem_nodes e h; omega
    · have := sizeOf_le_of_mem_nodesOfAll rest h; omega

theorem sizeOf_le_of_mem_nodesOfOption {into : Expr → Bool} (o : Option Expr) {x : Expr}
    (h : x ∈ nodesOfOption into o) : sizeOf x ≤ sizeOf o := by
  match o with
  | none => simp [nodesOfOption] at h
  | some e =>
    rw [nodesOfOption] at h
    simp only [Option.some.sizeOf_spec]
    have := Expr.sizeOf_le_of_mem_nodes e h; omega

theorem sizeOf_le_of_mem_nodesOfFields {into : Expr → Bool} (fs : List FieldInit) {x : Expr}
    (h : x ∈ nodesOfFields into fs) : sizeOf x ≤ sizeOf fs := by
  match fs with
  | [] => simp [nodesOfFields] at h
  | .mk _ value :: rest =>
    rw [nodesOfFields] at h
    simp only [List.cons.sizeOf_spec, FieldInit.mk.sizeOf_spec]
    rcases List.mem_append.mp h with h | h
    · have := Expr.sizeOf_le_of_mem_nodes value h; omega
    · have := sizeOf_le_of_mem_nodesOfFields rest h; omega

theorem sizeOf_le_of_mem_nodesOfArms {into : Expr → Bool} (as : List Arm) {x : Expr}
    (h : x ∈ nodesOfArms into as) : sizeOf x ≤ sizeOf as := by
  match as with
  | [] => simp [nodesOfArms] at h
  | .mk inner guard body :: rest =>
    rw [nodesOfArms] at h
    simp only [List.cons.sizeOf_spec, Arm.mk.sizeOf_spec]
    rcases List.mem_append.mp h with h | h
    · rcases List.mem_append.mp h with h | h
      · rcases List.mem_append.mp h with h | h
        · have := sizeOf_le_of_mem_nodesOfAll inner h; omega
        · have := sizeOf_le_of_mem_nodesOfOption guard h; omega
      · have := Expr.sizeOf_le_of_mem_nodes body h; omega
    · have := sizeOf_le_of_mem_nodesOfArms rest h; omega

theorem sizeOf_le_of_mem_nodesOfStmts {into : Expr → Bool} (ss : List Stmt) {x : Expr}
    (h : x ∈ nodesOfStmts into ss) : sizeOf x ≤ sizeOf ss := by
  match ss with
  | [] => simp [nodesOfStmts] at h
  | .bind _ inner value otherwise :: rest =>
    rw [nodesOfStmts] at h
    simp only [List.cons.sizeOf_spec, Stmt.bind.sizeOf_spec]
    rcases List.mem_append.mp h with h | h
    · rcases List.mem_append.mp h with h | h
      · rcases List.mem_append.mp h with h | h
        · have := sizeOf_le_of_mem_nodesOfAll inner h; omega
        · have := sizeOf_le_of_mem_nodesOfOption value h; omega
      · have := sizeOf_le_of_mem_nodesOfOption otherwise h; omega
    · have := sizeOf_le_of_mem_nodesOfStmts rest h; omega
  | .item item :: rest =>
    rw [nodesOfStmts] at h
    simp only [List.cons.sizeOf_spec, Stmt.item.sizeOf_spec]
    rcases List.mem_append.mp h with h | h
    · have := sizeOf_le_of_mem_nodesOfItem item h; omega
    · have := sizeOf_le_of_mem_nodesOfStmts rest h; omega
  | .expr e _ :: rest =>
    rw [nodesOfStmts] at h
    simp only [List.cons.sizeOf_spec, Stmt.expr.sizeOf_spec]
    rcases List.mem_append.mp h with h | h
    · have := Expr.sizeOf_le_of_mem_nodes e h; omega
    · have := sizeOf_le_of_mem_nodesOfStmts rest h; omega
  | .expansion _ _ :: rest =>
    rw [nodesOfStmts] at h
    simp only [List.cons.sizeOf_spec]
    have := sizeOf_le_of_mem_nodesOfStmts rest h; omega

theorem sizeOf_le_of_mem_nodesOfFunction {into : Expr → Bool} (f : Function) {x : Expr}
    (h : x ∈ nodesOfFunction into f) : sizeOf x ≤ sizeOf f := by
  match f with
  | .mk _ _ _ inner body =>
    rw [nodesOfFunction] at h
    simp only [Function.mk.sizeOf_spec]
    rcases List.mem_append.mp h with h | h
    · have := sizeOf_le_of_mem_nodesOfAll inner h; omega
    · have := sizeOf_le_of_mem_nodesOfStmts body h; omega

theorem sizeOf_le_of_mem_nodesOfMembers {into : Expr → Bool} (ms : List Member) {x : Expr}
    (h : x ∈ nodesOfMembers into ms) : sizeOf x ≤ sizeOf ms := by
  match ms with
  | [] => simp [nodesOfMembers] at h
  | .function f :: rest =>
    rw [nodesOfMembers] at h
    simp only [List.cons.sizeOf_spec, Member.function.sizeOf_spec]
    rcases List.mem_append.mp h with h | h
    · have := sizeOf_le_of_mem_nodesOfFunction f h; omega
    · have := sizeOf_le_of_mem_nodesOfMembers rest h; omega
  | .other inner :: rest =>
    rw [nodesOfMembers] at h
    simp only [List.cons.sizeOf_spec, Member.other.sizeOf_spec]
    rcases List.mem_append.mp h with h | h
    · have := sizeOf_le_of_mem_nodesOfAll inner h; omega
    · have := sizeOf_le_of_mem_nodesOfMembers rest h; omega

theorem sizeOf_le_of_mem_nodesOfItem {into : Expr → Bool} (item : Item) {x : Expr}
    (h : x ∈ nodesOfItem into item) : sizeOf x ≤ sizeOf item := by
  match item with
  | .function f =>
    rw [nodesOfItem] at h
    have := sizeOf_le_of_mem_nodesOfFunction f h
    simp only [Item.function.sizeOf_spec]; omega
  | .struct _ _ _ inner | .enum _ _ inner | .declaration _ inner | .other inner =>
    rw [nodesOfItem] at h
    have := sizeOf_le_of_mem_nodesOfAll inner h
    simp only [Item.struct.sizeOf_spec, Item.enum.sizeOf_spec, Item.declaration.sizeOf_spec,
      Item.other.sizeOf_spec]
    omega
  | .implementation _ _ inner members =>
    rw [nodesOfItem] at h
    simp only [Item.implementation.sizeOf_spec]
    rcases List.mem_append.mp h with h | h
    · have := sizeOf_le_of_mem_nodesOfAll inner h; omega
    · have := sizeOf_le_of_mem_nodesOfMembers members h; omega
  | .imports _ | .module _ none => simp [nodesOfItem] at h
  | .module _ (some items) =>
    rw [nodesOfItem] at h
    have := sizeOf_le_of_mem_nodesOfItems items h
    simp only [Item.module.sizeOf_spec, Option.some.sizeOf_spec]; omega

theorem sizeOf_le_of_mem_nodesOfItems {into : Expr → Bool} (items : List Item) {x : Expr}
    (h : x ∈ nodesOfItems into items) : sizeOf x ≤ sizeOf items := by
  match items with
  | [] => simp [nodesOfItems] at h
  | item :: rest =>
    rw [nodesOfItems] at h
    simp only [List.cons.sizeOf_spec]
    rcases List.mem_append.mp h with h | h
    · have := sizeOf_le_of_mem_nodesOfItem item h; omega
    · have := sizeOf_le_of_mem_nodesOfItems rest h; omega

end

end ApiContract.Source
