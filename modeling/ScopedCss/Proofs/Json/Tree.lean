/-
# Readers and written trees

The tree of a JSON text as it is written keeps the members of objects in their order, repeated keys
and all.  `Json.lexemes` are the lexemes of such a tree, and `Shape.readTree` is what a shape makes
of it, with room for so many containers inside of each other.

A reader goes through the lexemes of a text and knows no tree.  Still it does with the lexemes of a
tree what is done with the tree (`Shape.read_of_lex`), and what it accepts are the lexemes of a tree
(`Shape.exists_lex_eq`).  So all that is asked about readers can be asked about trees, and one tree
serves every shape.
-/

import ScopedCss.Json.Reader

namespace ScopedCss.Json

section Results

variable {ε β γ : Type}

@[simp] theorem ok_bind (x : β) (f : β → Except ε γ) : (Except.ok x >>= f) = f x := rfl

@[simp] theorem error_bind (e : ε) (f : β → Except ε γ) :
    ((Except.error e : Except ε β) >>= f) = .error e := rfl

@[simp] theorem mapError_ok {δ : Type} (f : ε → δ) (x : β) :
    (Except.ok x : Except ε β).mapError f = .ok x := rfl

theorem bind_eq_ok {x : Except ε β} {f : β → Except ε γ} {z : γ} :
    (x >>= f) = .ok z ↔ ∃ y, x = .ok y ∧ f y = .ok z := by
  cases x <;> simp

end Results

/-- Induction over values, with a hypothesis for each item and each member. -/
@[elab_as_elim]
theorem induction {P : Json → Prop} (atom : ∀ a, P (.atom a))
    (list : ∀ items, (∀ x ∈ items, P x) → P (.list items))
    (object : ∀ members, (∀ member ∈ members, P member.2) → P (.object members)) : ∀ x, P x
  | .atom a => atom a
  | .list items => list items fun x _ => induction atom list object x
  | .object members => object members fun (_, x) _ => induction atom list object x
termination_by x => sizeOf x
decreasing_by
  · next h =>
    have hitem := List.sizeOf_lt_of_mem h
    rw [Json.list.sizeOf_spec]
    omega
  · next h =>
    have hmember := List.sizeOf_lt_of_mem h
    rw [Prod.mk.sizeOf_spec] at hmember
    rw [Json.object.sizeOf_spec]
    omega

mutual

/-- The lexemes of a value. -/
def lexemes : Json → List Lexeme
  | .atom a => [.atom a]
  | .list items => .openList :: itemLexemes true items
  | .object members => .openObject :: memberLexemes true members

/-- The lexemes of a list from its next item on; every item but the first follows a comma. -/
def itemLexemes (first : Bool) : List Json → List Lexeme
  | [] => [.closeList]
  | x :: rest => (if first then [] else [.comma]) ++ lexemes x ++ itemLexemes false rest

/-- The lexemes of an object from its next member on; every member but the first follows a comma. -/
def memberLexemes (first : Bool) : List (String × Json) → List Lexeme
  | [] => [.closeObject]
  | (key, x) :: rest =>
    (if first then [] else [.comma]) ++ .atom (.text key) :: .colon :: lexemes x ++
      memberLexemes false rest

end

mutual

/-- How many containers are inside of each other in a value. -/
def nesting : Json → Nat
  | .atom _ => 0
  | .list items => nestingItems items + 1
  | .object members => nestingMembers members + 1

/-- The deepest nesting among items. -/
def nestingItems : List Json → Nat
  | [] => 0
  | x :: rest => max (nesting x) (nestingItems rest)

/-- The deepest nesting among the values of members. -/
def nestingMembers : List (String × Json) → Nat
  | [] => 0
  | (_, x) :: rest => max (nesting x) (nestingMembers rest)

end

/-- The content of a container, for which there must be room. -/
def enclosed {β : Type} (room : Nat) (content : Nat → Except ReadError β) : Except ReadError β :=
  match room with
  | 0 => .error (.fault .malformed)
  | room + 1 => content room

namespace Shape

variable {ρ α : Type} (shape : Shape ρ α)

mutual

/-- What is made of a value inside a container. -/
def readInner (room : Nat) : Json → Except ReadError α
  | .atom a => (shape.atom a).mapError .mismatch
  | .list items => enclosed room fun room => do
    let build ← (shape.list false).mapError .mismatch
    let xs ← readItems room items
    .ok (shape.nest (build xs))
  | .object members => enclosed room fun room => do
    let xs ← readMembers room members
    .ok (shape.nest (shape.object xs))

/-- What is made of the items of a list. -/
def readItems (room : Nat) : List Json → Except ReadError (List α)
  | [] => .ok []
  | x :: rest => do
    let y ← readInner room x
    let ys ← readItems room rest
    .ok (y :: ys)

/-- What is made of the members of an object. -/
def readMembers (room : Nat) : List (String × Json) → Except ReadError (List (String × α))
  | [] => .ok []
  | (key, x) :: rest => do
    let y ← readInner room x
    let ys ← readMembers room rest
    .ok ((key, y) :: ys)

end

/-- What is made of the tree of a whole text. -/
def readTree : Json → Except ReadError ρ
  | .atom a => (shape.root a).mapError .mismatch
  | .list items => enclosed depthLimit fun room => do
    let build ← (shape.list true).mapError .mismatch
    let xs ← shape.readItems room items
    .ok (build xs)
  | .object members => enclosed depthLimit fun room => do
    let xs ← shape.readMembers room members
    .ok (shape.object xs)

variable {shape} {room : Nat} {around outer : List (Frame α)}

theorem run_cons (shape : Shape ρ α) (w : Waiting ρ α) (x : Lexeme) (xs : List Lexeme) :
    shape.run w (x :: xs) = (do let w ← shape.step w x; shape.run w xs) := by
  rw [run]
  cases shape.step w x <;> rfl

variable (shape) in
/-- Inside of containers, the lexemes of a value put what is made of it into the innermost. -/
def Delivers (x : Json) : Prop :=
  ∀ {room : Nat} {frame : Frame α} {outer : List (Frame α)}, room + outer.length + 1 = depthLimit →
    ∀ rest, shape.run (.value (frame :: outer)) (x.lexemes ++ rest) =
      (do let y ← shape.readInner room x; shape.run (place y frame outer) rest)

/-- A value that comes first in a list is read like one behind a comma. -/
theorem run_firstItem (around : List (Frame α)) (x : Json) (rest : List Lexeme) :
    shape.run (.firstItem around) (x.lexemes ++ rest) =
      shape.run (.value (.item [] :: around)) (x.lexemes ++ rest) := by
  cases x <;> rw [lexemes, List.cons_append, run_cons, run_cons] <;> rfl

theorem run_afterItem (hroom : room + around.length + 1 = depthLimit) {items : List Json}
    (h : ∀ x ∈ items, shape.Delivers x) (before : List α) (rest : List Lexeme) :
    shape.run (.afterItem before around) (itemLexemes false items ++ rest) = (do
      let xs ← shape.readItems room items
      let w ← shape.closeList (before ++ xs) around
      shape.run w rest) := by
  induction items generalizing before with
  | nil =>
      rw [itemLexemes, readItems, List.cons_append, run_cons, ok_bind, List.append_nil]
      rfl
  | cons x items ih =>
      have hitems := ih fun y hy => h y (List.mem_cons_of_mem x hy)
      have hcomma : shape.step (.afterItem before around) .comma =
          .ok (.value (.item before :: around)) := rfl
      have hcut : itemLexemes false (x :: items) ++ rest =
          .comma :: (x.lexemes ++ (itemLexemes false items ++ rest)) := by
        simp [itemLexemes]
      rw [hcut, run_cons, hcomma, ok_bind, h x List.mem_cons_self hroom, readItems, bind_assoc]
      congr 1
      funext y
      rw [place, hitems, bind_assoc]
      simp

theorem run_itemLexemes (hroom : room + around.length + 1 = depthLimit) {items : List Json}
    (h : ∀ x ∈ items, shape.Delivers x) (rest : List Lexeme) :
    shape.run (.firstItem around) (itemLexemes true items ++ rest) = (do
      let xs ← shape.readItems room items
      let w ← shape.closeList xs around
      shape.run w rest) := by
  cases items with
  | nil =>
      rw [itemLexemes, readItems, List.cons_append, run_cons, ok_bind]
      rfl
  | cons x items =>
      have hitems := run_afterItem hroom fun y hy => h y (List.mem_cons_of_mem x hy)
      have hcut : itemLexemes true (x :: items) ++ rest =
          x.lexemes ++ (itemLexemes false items ++ rest) := by
        simp [itemLexemes]
      rw [hcut, run_firstItem, h x List.mem_cons_self hroom, readItems, bind_assoc]
      congr 1
      funext y
      rw [place, hitems, bind_assoc]
      simp

theorem run_afterMember (hroom : room + around.length + 1 = depthLimit)
    {members : List (String × Json)} (h : ∀ member ∈ members, shape.Delivers member.2)
    (before : List (String × α)) (rest : List Lexeme) :
    shape.run (.afterMember before around) (memberLexemes false members ++ rest) = (do
      let xs ← shape.readMembers room members
      shape.run (shape.close (shape.object (before ++ xs)) around) rest) := by
  induction members generalizing before with
  | nil =>
      rw [memberLexemes, readMembers, List.cons_append, run_cons, ok_bind, List.append_nil]
      rfl
  | cons member members ih =>
      obtain ⟨key, x⟩ := member
      have hmembers := ih fun other hother => h other (List.mem_cons_of_mem _ hother)
      have hcut : memberLexemes false ((key, x) :: members) ++ rest =
          .comma :: .atom (.text key) :: .colon ::
            (x.lexemes ++ (memberLexemes false members ++ rest)) := by
        simp [memberLexemes]
      have hcomma : shape.step (.afterMember before around) .comma = .ok (.key before around) := rfl
      have hkey : shape.step (.key before around) (.atom (.text key)) =
          .ok (.colon before key around) := rfl
      have hcolon : shape.step (.colon before key around) .colon =
          .ok (.value (.member before key :: around)) := rfl
      rw [hcut, run_cons, hcomma, ok_bind, run_cons, hkey, ok_bind, run_cons, hcolon, ok_bind,
        h _ List.mem_cons_self hroom, readMembers, bind_assoc]
      congr 1
      funext y
      rw [place, hmembers, bind_assoc]
      simp

theorem run_memberLexemes (hroom : room + around.length + 1 = depthLimit)
    {members : List (String × Json)} (h : ∀ member ∈ members, shape.Delivers member.2)
    (rest : List Lexeme) :
    shape.run (.firstKey around) (memberLexemes true members ++ rest) = (do
      let xs ← shape.readMembers room members
      shape.run (shape.close (shape.object xs) around) rest) := by
  cases members with
  | nil =>
      rw [memberLexemes, readMembers, List.cons_append, run_cons, ok_bind]
      rfl
  | cons member members =>
      obtain ⟨key, x⟩ := member
      have hmembers := run_afterMember hroom fun other hother =>
        h other (List.mem_cons_of_mem _ hother)
      have hcut : memberLexemes true ((key, x) :: members) ++ rest =
          .atom (.text key) :: .colon :: (x.lexemes ++ (memberLexemes false members ++ rest)) := by
        simp [memberLexemes]
      have hkey : shape.step (.firstKey around) (.atom (.text key)) = .ok (.colon [] key around) :=
        rfl
      have hcolon : shape.step (.colon [] key around) .colon =
          .ok (.value (.member [] key :: around)) := rfl
      rw [hcut, run_cons, hkey, ok_bind, run_cons, hcolon, ok_bind, h _ List.mem_cons_self hroom,
        readMembers, bind_assoc]
      congr 1
      funext y
      rw [place, hmembers, bind_assoc]
      simp

theorem run_list (hroom : room + around.length + 1 = depthLimit) {items : List Json}
    (h : ∀ x ∈ items, shape.Delivers x) (rest : List Lexeme) :
    shape.run (.value around) ((Json.list items).lexemes ++ rest) = (do
      let build ← (shape.list around.isEmpty).mapError .mismatch
      let xs ← shape.readItems room items
      shape.run (shape.close (build xs) around) rest) := by
  rw [lexemes, List.cons_append, run_cons, step, takeValue, if_pos (by omega)]
  cases hlist : shape.list around.isEmpty with
  | error mismatch => rfl
  | ok build =>
      have hclose (xs : List α) :
          shape.closeList xs around = .ok (shape.close (build xs) around) := by
        rw [closeList, hlist]
        rfl
      simp only [mapError_ok, Except.map, ok_bind, run_itemLexemes hroom h, hclose]

theorem run_object (hroom : room + around.length + 1 = depthLimit)
    {members : List (String × Json)} (h : ∀ member ∈ members, shape.Delivers member.2)
    (rest : List Lexeme) :
    shape.run (.value around) ((Json.object members).lexemes ++ rest) = (do
      let xs ← shape.readMembers room members
      shape.run (shape.close (shape.object xs) around) rest) := by
  rw [lexemes, List.cons_append, run_cons, step, takeValue, if_pos (by omega), ok_bind,
    run_memberLexemes hroom h]

/-- There is no room for a container inside of as many as may be open. -/
theorem run_full (hfull : around.length = depthLimit) {x : Json} (hx : ∀ a, x ≠ .atom a)
    (rest : List Lexeme) :
    shape.run (.value around) (x.lexemes ++ rest) = .error (.fault .malformed) := by
  have hnot : ¬ around.length < depthLimit := Nat.not_lt.2 (Nat.le_of_eq hfull.symm)
  cases x with
  | atom a => exact absurd rfl (hx a)
  | list items => rw [lexemes, List.cons_append, run_cons, step, takeValue, if_neg hnot, error_bind]
  | object members =>
      rw [lexemes, List.cons_append, run_cons, step, takeValue, if_neg hnot, error_bind]

theorem delivers (shape : Shape ρ α) (x : Json) : shape.Delivers x := by
  induction x using Json.induction with
  | atom a =>
      intro room frame outer _ rest
      rw [lexemes, List.singleton_append, run_cons, step, takeValue, takeAtom, readInner]
      cases shape.atom a <;> rfl
  | list items ih =>
      intro room frame outer hroom rest
      cases room with
      | zero => exact run_full (by simpa using hroom) (by simp) rest
      | succ room =>
          have hinner : room + (frame :: outer).length + 1 = depthLimit := by
            rw [List.length_cons]
            omega
          rw [run_list hinner ih, readInner, enclosed, List.isEmpty_cons]
          simp only [bind_assoc, ok_bind, close]
  | object members ih =>
      intro room frame outer hroom rest
      cases room with
      | zero => exact run_full (by simpa using hroom) (by simp) rest
      | succ room =>
          have hinner : room + (frame :: outer).length + 1 = depthLimit := by
            rw [List.length_cons]
            omega
          rw [run_object hinner ih, readInner, enclosed]
          simp only [bind_assoc, ok_bind, close]

/-- The lexemes of the tree of a whole text are read like the tree. -/
theorem run_lexemes (shape : Shape ρ α) (tree : Json) (rest : List Lexeme) :
    shape.run (.value []) (tree.lexemes ++ rest) =
      (do let r ← shape.readTree tree; shape.run (.nothing r) rest) := by
  have hroom : 126 + ([] : List (Frame α)).length + 1 = depthLimit := rfl
  cases tree with
  | atom a =>
      rw [lexemes, List.singleton_append, run_cons, step, takeValue, takeAtom, readTree]
      cases shape.root a <;> rfl
  | list items =>
      rw [run_list hroom fun x _ => shape.delivers x, readTree, List.isEmpty_nil, depthLimit,
        enclosed]
      simp only [bind_assoc, ok_bind, close]
  | object members =>
      rw [run_object hroom fun member _ => shape.delivers member.2, readTree, depthLimit, enclosed]
      simp only [bind_assoc, ok_bind, close]

/-- A text with the lexemes of a tree is read like the tree. -/
theorem read_of_lex (shape : Shape ρ α) {text : List Char} {tree : Json}
    (h : lex text = tree.lexemes) : shape.read text = shape.readTree tree := by
  rw [read, h, ← List.append_nil tree.lexemes, run_lexemes]
  cases shape.readTree tree <;> rfl

/-! ## Accepted texts -/

variable {r : ρ} {xs : List Lexeme}

variable (shape) in
/-- Lexemes that a reader accepts begin with what it waits for. -/
structure Splits (xs : List Lexeme) : Prop where
  value : ∀ {around : List (Frame α)} {r : ρ}, around.length ≤ depthLimit →
    shape.run (.value around) xs = .ok r → ∃ x rest, xs = lexemes x ++ rest
  items : ∀ {before : List α} {around : List (Frame α)} {r : ρ}, around.length < depthLimit →
    shape.run (.afterItem before around) xs = .ok r →
    ∃ items rest, xs = itemLexemes false items ++ rest
  members : ∀ {before : List (String × α)} {around : List (Frame α)} {r : ρ},
    around.length < depthLimit → shape.run (.afterMember before around) xs = .ok r →
    ∃ members rest, xs = memberLexemes false members ++ rest

theorem run_cons_eq_ok {w : Waiting ρ α} {x : Lexeme} :
    shape.run w (x :: xs) = .ok r ↔
      ∃ next, shape.step w x = .ok next ∧ shape.run next xs = .ok r := by
  rw [run_cons, bind_eq_ok]

/-- Behind an accepted value inside of containers, the reader goes on with something put into the
innermost. -/
theorem exists_run_place {frame : Frame α} (hdepth : outer.length < depthLimit) {x : Json}
    (hrun : shape.run (.value (frame :: outer)) (x.lexemes ++ xs) = .ok r) :
    ∃ y, shape.run (place y frame outer) xs = .ok r := by
  obtain ⟨room, hroom⟩ := Nat.exists_eq_add_of_lt hdepth
  rw [shape.delivers x (by omega : room + outer.length + 1 = depthLimit), bind_eq_ok] at hrun
  obtain ⟨y, -, hrest⟩ := hrun
  exact ⟨y, hrest⟩

theorem exists_items (hsplits : ∀ ys : List Lexeme, ys.length ≤ xs.length → shape.Splits ys)
    (hdepth : around.length < depthLimit) {before : List α}
    (hrun : shape.run (.value (.item before :: around)) xs = .ok r) :
    ∃ x items rest, xs = lexemes x ++ (itemLexemes false items ++ rest) := by
  have hinner : (Frame.item before :: around).length ≤ depthLimit := hdepth
  obtain ⟨x, rest, rfl⟩ := (hsplits xs (Nat.le_refl _)).value hinner hrun
  obtain ⟨y, hrest⟩ := exists_run_place hdepth hrun
  obtain ⟨items, rest, rfl⟩ := (hsplits rest (by simp)).items hdepth hrest
  exact ⟨x, items, rest, rfl⟩

theorem exists_members (hsplits : ∀ ys : List Lexeme, ys.length ≤ xs.length → shape.Splits ys)
    (hdepth : around.length < depthLimit) {before : List (String × α)} {key : String}
    (hrun : shape.run (.colon before key around) xs = .ok r) :
    ∃ x members rest, xs = .colon :: (lexemes x ++ (memberLexemes false members ++ rest)) := by
  cases xs with
  | nil => cases hrun
  | cons first xs =>
      cases first with
      | colon =>
          obtain ⟨next, hstep, hvalue⟩ := run_cons_eq_ok.1 hrun
          cases hstep
          have hinner : (Frame.member before key :: around).length ≤ depthLimit := hdepth
          obtain ⟨x, rest, rfl⟩ := (hsplits xs (by simp)).value hinner hvalue
          obtain ⟨y, hrest⟩ := exists_run_place hdepth hvalue
          obtain ⟨members, rest, rfl⟩ := (hsplits rest (by simp; omega)).members hdepth hrest
          exact ⟨x, members, rest, rfl⟩
      | _ => cases hrun

theorem exists_list (hsplits : ∀ ys : List Lexeme, ys.length ≤ xs.length → shape.Splits ys)
    (hdepth : around.length < depthLimit) (hrun : shape.run (.firstItem around) xs = .ok r) :
    ∃ items rest, xs = itemLexemes true items ++ rest := by
  have hvalue (hrun : shape.run (.value (.item [] :: around)) xs = .ok r) :
      ∃ items rest, xs = itemLexemes true items ++ rest := by
    obtain ⟨x, items, rest, rfl⟩ := exists_items hsplits hdepth hrun
    exact ⟨x :: items, rest, by simp [itemLexemes]⟩
  cases xs with
  | nil => cases hrun
  | cons first xs =>
      cases first with
      | closeList => exact ⟨[], xs, rfl⟩
      | _ => exact hvalue hrun

theorem exists_key (hsplits : ∀ ys : List Lexeme, ys.length ≤ xs.length → shape.Splits ys)
    (hdepth : around.length < depthLimit) {before : List (String × α)}
    (hrun : shape.run (.key before around) xs = .ok r) :
    ∃ key x members rest, xs = .atom (.text key) :: .colon ::
      (lexemes x ++ (memberLexemes false members ++ rest)) := by
  cases xs with
  | nil => cases hrun
  | cons first xs =>
      obtain ⟨next, hstep, hrest⟩ := run_cons_eq_ok.1 hrun
      cases first with
      | atom a =>
          cases a with
          | text key =>
              cases hstep
              obtain ⟨x, members, rest, rfl⟩ :=
                exists_members (fun ys hys => hsplits ys (Nat.le_succ_of_le hys)) hdepth hrest
              exact ⟨key, x, members, rest, rfl⟩
          | _ => cases hstep
      | broken quoted fault => cases quoted <;> cases hstep
      | _ => cases hstep

theorem exists_object (hsplits : ∀ ys : List Lexeme, ys.length ≤ xs.length → shape.Splits ys)
    (hdepth : around.length < depthLimit) (hrun : shape.run (.firstKey around) xs = .ok r) :
    ∃ members rest, xs = memberLexemes true members ++ rest := by
  have hkey (hrun : shape.run (.key [] around) xs = .ok r) :
      ∃ members rest, xs = memberLexemes true members ++ rest := by
    obtain ⟨key, x, members, rest, rfl⟩ := exists_key hsplits hdepth hrun
    exact ⟨(key, x) :: members, rest, by simp [memberLexemes]⟩
  cases xs with
  | nil => cases hrun
  | cons first xs =>
      cases first with
      | closeObject => exact ⟨[], xs, rfl⟩
      | _ => exact hkey hrun

/-- Reading accepts only values, and items and members up to the end of what they stand in. -/
theorem splits (shape : Shape ρ α) (xs : List Lexeme) : shape.Splits xs := by
  -- By the number of lexemes, since a value is followed by the rest of what it stands in.
  induction hlength : xs.length using Nat.strongRecOn generalizing xs with
  | ind n ih =>
  have hshorter {first : Lexeme} {ys : List Lexeme} (h : xs = first :: ys) (zs : List Lexeme)
      (hzs : zs.length ≤ ys.length) : shape.Splits zs := by
    refine ih zs.length ?_ zs rfl
    rw [← hlength, h, List.length_cons]
    omega
  constructor
  case value =>
    intro around r hdepth hrun
    cases xs with
    | nil => cases hrun
    | cons first xs =>
        obtain ⟨next, hstep, hrest⟩ := run_cons_eq_ok.1 hrun
        cases first with
        | atom a => exact ⟨.atom a, xs, rfl⟩
        | openList =>
            rw [step, takeValue] at hstep
            split at hstep
            · next hroom =>
              cases hlist : shape.list around.isEmpty with
              | error mismatch =>
                  rw [hlist] at hstep
                  cases hstep
              | ok build =>
                  rw [hlist] at hstep
                  cases hstep
                  obtain ⟨items, rest, rfl⟩ := exists_list (hshorter rfl) hroom hrest
                  exact ⟨.list items, rest, by simp [lexemes]⟩
            · cases hstep
        | openObject =>
            rw [step, takeValue] at hstep
            split at hstep
            · next hroom =>
              cases hstep
              obtain ⟨members, rest, rfl⟩ := exists_object (hshorter rfl) hroom hrest
              exact ⟨.object members, rest, by simp [lexemes]⟩
            · cases hstep
        | _ => cases hstep
  case items =>
    intro before around r hdepth hrun
    cases xs with
    | nil => cases hrun
    | cons first xs =>
        obtain ⟨next, hstep, hrest⟩ := run_cons_eq_ok.1 hrun
        cases first with
        | comma =>
            cases hstep
            obtain ⟨x, items, rest, rfl⟩ := exists_items (hshorter rfl) hdepth hrest
            exact ⟨x :: items, rest, by simp [itemLexemes]⟩
        | closeList => exact ⟨[], xs, rfl⟩
        | _ => cases hstep
  case members =>
    intro before around r hdepth hrun
    cases xs with
    | nil => cases hrun
    | cons first xs =>
        obtain ⟨next, hstep, hrest⟩ := run_cons_eq_ok.1 hrun
        cases first with
        | comma =>
            cases hstep
            obtain ⟨key, x, members, rest, rfl⟩ := exists_key (hshorter rfl) hdepth hrest
            exact ⟨(key, x) :: members, rest, by simp [memberLexemes]⟩
        | closeObject => exact ⟨[], xs, rfl⟩
        | _ => cases hstep

/-- What is accepted is the lexemes of a tree. -/
theorem exists_lex_eq {text : List Char} (h : shape.read text = .ok r) :
    ∃ tree, lex text = lexemes tree := by
  obtain ⟨tree, rest, hlex⟩ := (shape.splits (lex text)).value (Nat.zero_le _) h
  rw [read, hlex, run_lexemes, bind_eq_ok] at h
  obtain ⟨result, -, hrest⟩ := h
  cases rest with
  | nil => exact ⟨tree, by rw [hlex, List.append_nil]⟩
  | cons x rest => cases hrest

theorem le_of_enclosed_eq_ok {β : Type} {content : Nat → Except ReadError β} {y : β} {n : Nat}
    (h : enclosed room content = .ok y) (hcontent : ∀ room, content room = .ok y → n ≤ room) :
    n + 1 ≤ room := by
  cases room with
  | zero => cases h
  | succ room => exact Nat.succ_le_succ (hcontent room h)

theorem nestingItems_le_of_readItems {items : List Json} {ys : List α}
    (hitems : ∀ x ∈ items, ∀ y, shape.readInner room x = .ok y → x.nesting ≤ room)
    (h : shape.readItems room items = .ok ys) : nestingItems items ≤ room := by
  induction items generalizing ys with
  | nil => exact Nat.zero_le room
  | cons x items ih =>
      rw [readItems, bind_eq_ok] at h
      obtain ⟨y, hy, hrest⟩ := h
      obtain ⟨ys, hys, -⟩ := bind_eq_ok.1 hrest
      exact Nat.max_le.2 ⟨hitems x List.mem_cons_self y hy,
        ih (fun z hz => hitems z (List.mem_cons_of_mem x hz)) hys⟩

theorem nestingMembers_le_of_readMembers {members : List (String × Json)}
    {ys : List (String × α)}
    (hmembers : ∀ m ∈ members, ∀ y, shape.readInner room m.2 = .ok y → m.2.nesting ≤ room)
    (h : shape.readMembers room members = .ok ys) : nestingMembers members ≤ room := by
  induction members generalizing ys with
  | nil => exact Nat.zero_le room
  | cons member members ih =>
      rw [readMembers, bind_eq_ok] at h
      obtain ⟨y, hy, hrest⟩ := h
      obtain ⟨ys, hys, -⟩ := bind_eq_ok.1 hrest
      exact Nat.max_le.2 ⟨hmembers member List.mem_cons_self y hy,
        ih (fun m hm => hmembers m (List.mem_cons_of_mem member hm)) hys⟩

/-- What is made of a value has had room for the containers in it. -/
theorem nesting_le_of_readInner {x : Json} :
    ∀ {room : Nat} {y : α}, shape.readInner room x = .ok y → x.nesting ≤ room := by
  induction x using Json.induction with
  | atom a => exact fun _ => Nat.zero_le _
  | list items ih =>
      intro room y h
      refine le_of_enclosed_eq_ok h fun room h => ?_
      obtain ⟨build, -, hrest⟩ := bind_eq_ok.1 h
      obtain ⟨ys, hys, -⟩ := bind_eq_ok.1 hrest
      exact nestingItems_le_of_readItems (fun x hx _ => ih x hx) hys
  | object members ih =>
      intro room y h
      refine le_of_enclosed_eq_ok h fun room h => ?_
      obtain ⟨ys, hys, -⟩ := bind_eq_ok.1 h
      exact nestingMembers_le_of_readMembers (fun m hm _ => ih m hm) hys

/-- No more containers are read inside of each other than may be open. -/
theorem nesting_le_of_readTree {tree : Json} (h : shape.readTree tree = .ok r) :
    tree.nesting ≤ depthLimit := by
  cases tree with
  | atom a => exact Nat.zero_le _
  | list items =>
      rw [readTree] at h
      refine le_of_enclosed_eq_ok h fun room h => ?_
      obtain ⟨build, -, hrest⟩ := bind_eq_ok.1 h
      obtain ⟨ys, hys, -⟩ := bind_eq_ok.1 hrest
      exact nestingItems_le_of_readItems (fun _ _ _ => nesting_le_of_readInner) hys
  | object members =>
      rw [readTree] at h
      refine le_of_enclosed_eq_ok h fun room h => ?_
      obtain ⟨ys, hys, -⟩ := bind_eq_ok.1 h
      exact nestingMembers_le_of_readMembers (fun _ _ _ => nesting_le_of_readInner) hys

end Shape

end ScopedCss.Json
