import DeclTree.Proofs.Delimited
import DeclTree.Proofs.Intent.Lazy
import DeclTree.Proofs.Intent.Places

/-!
# The text of a type

A type is written as its name, its arguments in brackets and a mark if it is nullable. Types with
the same intent have one text. The text in turn determines the type up to intent, as long as no
name holds a character that the rendering itself uses: the text of a type then ends where an
argument can end and nowhere else, so that it can be read off from what follows.
-/

namespace DeclTree

open Matching Delimited

namespace TypeText

/-! ## Characters -/

/-- The characters that a rendering puts between names. -/
def marks : List Char := ['<', '>', ',', '?']

/-- No character of the name is one of the marks. -/
def Plain (name : String) : Prop := ∀ c ∈ name.toList, c ∉ marks

instance (name : String) : Decidable (Plain name) :=
  List.decidableBAll (fun c => c ∉ marks) name.toList

/-- The texts of all arguments in brackets. There are no brackets without arguments. -/
def bracketed : List (List Char) → List Char
  | [] => []
  | text :: texts => '<' :: (text ++ closing '>' texts)

def nullMark (isNullable : Bool) : List Char := if isNullable then ['?'] else []

theorem toList_typeText (name : String) (arguments : List String) (isNullable : Bool) :
    (Node.typeText name arguments isNullable).toList =
      name.toList ++ (bracketed (arguments.map String.toList) ++ nullMark isNullable) := by
  unfold Node.typeText
  cases arguments with
  | nil => cases isNullable <;> simp [bracketed, nullMark]
  | cons argument arguments =>
      cases isNullable <;> simp [bracketed, nullMark, append_closing]

/-! ## Reading a text from the left -/

theorem not_ends_cons (rest : List Char) : ¬ Ends '>' ('?' :: rest) := by
  simp [Ends]

theorem head_nullMark_append {rest : List Char} (hrest : Ends '>' rest) (isNullable : Bool) :
    ∀ c ∈ (nullMark isNullable ++ rest).head?, c ∈ marks ∧ c ≠ '<' := by
  intro c hc
  cases isNullable with
  | true =>
      obtain rfl : '?' = c := Option.some.inj hc
      decide
  | false => rcases hrest c hc with rfl | rfl <;> decide

theorem head_bracketed_append {texts : List (List Char)} {rest : List Char}
    (hrest : ∀ c ∈ rest.head?, c ∈ marks) : ∀ c ∈ (bracketed texts ++ rest).head?, c ∈ marks := by
  intro c hc
  cases texts with
  | nil => exact hrest c hc
  | cons text texts =>
      obtain rfl : '<' = c := Option.some.inj hc
      decide

theorem eq_of_nullMark_append {isNullable isNullable' : Bool} {rest rest' : List Char}
    (hrest : Ends '>' rest) (hrest' : Ends '>' rest')
    (h : nullMark isNullable ++ rest = nullMark isNullable' ++ rest') :
    isNullable = isNullable' ∧ rest = rest' := by
  cases isNullable with
  | true =>
      cases isNullable' with
      | true => simpa [nullMark] using h
      | false =>
          have h : '?' :: rest = rest' := h
          exact absurd (h ▸ hrest') (not_ends_cons rest)
  | false =>
      cases isNullable' with
      | true =>
          have h : rest = '?' :: rest' := h
          exact absurd (h ▸ hrest) (not_ends_cons rest')
      | false => simpa [nullMark] using h

section Arguments

variable {α : Type} {text : α → List Char} {same : α → α → Prop}

theorem forall₂_of_bracketed_append {lefts rights : List α}
    (each : ∀ left ∈ lefts, ∀ right ∈ rights, Separates '>' text same left right)
    {rest rest' : List Char} (hrest : '<' ∉ rest.head?) (hrest' : '<' ∉ rest'.head?)
    (h : bracketed (lefts.map text) ++ rest = bracketed (rights.map text) ++ rest') :
    List.Forall₂ same lefts rights ∧ rest = rest' := by
  cases lefts with
  | nil =>
      cases rights with
      | nil => exact ⟨.nil, by simpa [bracketed] using h⟩
      | cons right rights =>
          have opened : rest = '<' :: (text right ++ closing '>' (rights.map text) ++ rest') := h
          exact absurd (by simp [opened]) hrest
  | cons left lefts =>
      cases rights with
      | nil =>
          have opened : '<' :: (text left ++ closing '>' (lefts.map text) ++ rest) = rest' := h
          exact absurd (by simp [← opened]) hrest'
      | cons right rights =>
          -- Both open a bracket. The rest is read as if another comma had been there.
          have texts : closing '>' ((left :: lefts).map text) ++ rest =
              closing '>' ((right :: rights).map text) ++ rest' := by
            simpa [bracketed, closing] using h
          refine forall₂_of_closing_append (by decide) (fun l r facing => ?_) texts
          obtain ⟨hl, hr⟩ := List.of_mem_zip facing
          exact each l hl r hr

end Arguments

end TypeText

/-! ## Types -/

namespace Node

open TypeText

/-- A tree of type references. -/
def TypeTree (node : Node) : Prop := node.Catalog ∧ node.kind = .typeRef

/-- Whether a type reference is nullable. -/
def isNullable (node : Node) : Bool :=
  match node.body with
  | .typeRef isNullable => isNullable
  | _ => false

namespace TypeTree

variable {node left right : Node}

theorem itemsOf_eq_nil (h : node.TypeTree) {place : Place} (other : place ≠ .list .typeArgs) :
    node.itemsOf place = [] := by
  apply Node.itemsOf_eq_nil
  rw [h.1.places_eq, h.2]
  simpa [Kind.places, Kind.branches, Branch.place] using other

theorem body_eq (h : node.TypeTree) : node.body = .typeRef node.isNullable := by
  have kind : node.body.kind = .typeRef := h.2
  unfold isNullable
  cases hbody : node.body with
  | typeRef isNullable => rfl
  | _ => rw [hbody] at kind; cases kind

/-- The arguments are all that a type reference has below it. -/
theorem exists_branches (h : node.TypeTree) : ∃ arguments : ChildList Node,
    node.branches = [.list .typeArgs arguments] ∧
      node.itemsOf (.list .typeArgs) = arguments.items := by
  have places : node.branches.map Branch.place = [.list .typeArgs] := by
    have := h.1.places_eq
    rwa [h.2] at this
  obtain ⟨branch, hbranches, hplace⟩ := List.map_eq_singleton_iff.mp places
  have items := itemsOf_place h.1.2.shaped.nodup_places (hbranches ▸ List.mem_singleton_self branch)
  rw [hplace] at items
  cases branch with
  | list role arguments =>
      obtain rfl : role = .typeArgs := Place.list.inj hplace
      exact ⟨arguments, hbranches, items⟩
  | _ => cases hplace

theorem parts_eq (h : node.TypeTree) : node.parts = node.itemsOf (.list .typeArgs) := by
  obtain ⟨arguments, hbranches, items⟩ := h.exists_branches
  rw [parts, hbranches, items, List.flatMap_singleton]
  rfl

theorem of_mem_parts (h : node.TypeTree) {part : Node} (hpart : part ∈ node.parts) :
    part.TypeTree := by
  rw [h.parts_eq] at hpart
  obtain ⟨kind, catalog⟩ := (catalog_iff.mp h.1).2.2 _ part hpart
  exact ⟨catalog, (Option.some.inj kind).symm⟩

theorem kind_of_mem_nodes (h : node.TypeTree) {other : Node} (hother : other ∈ node.nodes) :
    other.kind = .typeRef := by
  induction node using induction with
  | step node ih =>
      rcases mem_nodes.mp hother with rfl | ⟨part, hpart, below⟩
      · exact h.2
      · exact ih part hpart (h.of_mem_parts hpart) below

theorem displayName_eq (h : node.TypeTree) :
    node.displayName = typeText node.name (node.parts.map displayName) node.isNullable := by
  obtain ⟨arguments, hbranches, items⟩ := h.exists_branches
  rw [h.parts_eq, items, displayName, fold_eq, hbranches]
  simp only [List.map_cons, List.map_nil, Branch.map, List.flatMap_singleton]
  rfl

theorem toList_displayName (h : node.TypeTree) :
    node.displayName.toList =
      node.name.toList ++ (bracketed (node.parts.map fun part => part.displayName.toList) ++
        nullMark node.isNullable) := by
  rw [h.displayName_eq, toList_typeText, List.map_map]
  rfl

/-- Without annotations a type is compared by its name, its mark and its arguments in order. -/
theorem sameWith_iff (hleft : left.TypeTree) (hright : right.TypeTree)
    (symbolOf : Header → Option Symbol) :
    sameWith symbolOf { annotations := false } left right = true ↔
      left.name = right.name ∧ left.isNullable = right.isNullable ∧
        List.Forall₂ (fun a b => sameWith symbolOf { annotations := false } a b = true)
          left.parts right.parts := by
  rw [hleft.1.sameWith_iff symbolOf _ hright.1, hleft.parts_eq, hright.parts_eq, ← ordered_iff]
  constructor
  · rintro ⟨-, data, places⟩
    have content := data.content
    rw [hleft.body_eq, hright.body_eq] at content
    exact ⟨data.name, by simpa [Body.sameContent] using content, places (.list .typeArgs)⟩
  · rintro ⟨name, isNullable, arguments⟩
    refine ⟨hleft.2.trans hright.2.symm, ?_, fun place => ?_⟩
    · have body : left.body = right.body := by rw [hleft.body_eq, hright.body_eq, isNullable]
      refine .of_body body name (fun declared => ?_) fun annotated => by cases annotated
      rw [hleft.2] at declared
      cases declared
    · by_cases here : place = .list .typeArgs
      · rw [here]
        exact arguments
      · rw [hleft.itemsOf_eq_nil here, hright.itemsOf_eq_nil here]
        exact listsSame_nil _ _

/-- Types with the same intent have one text. -/
theorem displayName_of_sameWith (hleft : left.TypeTree) (hright : right.TypeTree)
    {symbolOf : Header → Option Symbol}
    (h : sameWith symbolOf { annotations := false } left right = true) :
    left.displayName = right.displayName := by
  induction left using induction generalizing right with
  | step left ih =>
      obtain ⟨name, isNullable, arguments⟩ := (hleft.sameWith_iff hright symbolOf).mp h
      have texts : left.parts.map displayName = right.parts.map displayName := by
        refine map_eq_map_of_forall₂ (forall₂_imp_of_mem (fun a ha b hb same => ?_) arguments)
        exact ih a ha (hleft.of_mem_parts ha) (hright.of_mem_parts hb) same
      rw [hleft.displayName_eq, hright.displayName_eq, name, isNullable, texts]

/-- Two types with plain names whose texts begin one text have the same intent. -/
theorem separates (hleft : left.TypeTree) (hright : right.TypeTree)
    (plain : ∀ node ∈ left.nodes, Plain node.name) (plain' : ∀ node ∈ right.nodes, Plain node.name)
    (symbolOf : Header → Option Symbol) :
    Separates '>' (fun node => node.displayName.toList)
      (fun a b => sameWith symbolOf { annotations := false } a b = true) left right := by
  induction left using induction generalizing right with
  | step left ih =>
      intro rest rest' hrest hrest' h
      have each : ∀ l ∈ left.parts, ∀ r ∈ right.parts,
          Separates '>' (fun node => node.displayName.toList)
            (fun a b => sameWith symbolOf { annotations := false } a b = true) l r :=
        fun l hl r hr => ih l hl (hleft.of_mem_parts hl) (hright.of_mem_parts hr)
          (fun node hnode => plain node (mem_nodes_of_mem_parts hl hnode))
          (fun node hnode => plain' node (mem_nodes_of_mem_parts hr hnode))
      simp only [hleft.toList_displayName, hright.toList_displayName, List.append_assoc] at h
      have follows := head_nullMark_append hrest left.isNullable
      have follows' := head_nullMark_append hrest' right.isNullable
      -- A plain name ends at the first mark.
      obtain ⟨name, h⟩ := eq_of_append_eq_append (· ∈ marks) (plain left left.self_mem_nodes)
        (plain' right right.self_mem_nodes) (head_bracketed_append fun c hc => (follows c hc).1)
        (head_bracketed_append fun c hc => (follows' c hc).1) h
      obtain ⟨arguments, h⟩ := forall₂_of_bracketed_append each
        (fun opens => (follows _ opens).2 rfl) (fun opens => (follows' _ opens).2 rfl) h
      obtain ⟨isNullable, h⟩ := eq_of_nullMark_append hrest hrest' h
      refine ⟨(hleft.sameWith_iff hright symbolOf).mpr ⟨?_, isNullable, arguments⟩, h⟩
      exact String.toList_inj.mp name

/-- A type holds no declarations, so its comparison asks no resolver. -/
theorem fst_sameIntent (hleft : left.TypeTree) (hright : right.TypeTree) (options : CompareOptions)
    (symbolOf : Header → Option Symbol) (state : Resolution) :
    (left.sameIntent options right state).1 = sameWith symbolOf options left right := by
  have none : ∀ tree : Node, tree.TypeTree → tree.typeDecls = [] := by
    intro tree htree
    refine List.filter_eq_nil_iff.mpr fun node hnode => ?_
    rw [htree.kind_of_mem_nodes hnode]
    decide
  have decls : left.declsWith right = [] := by
    rw [declsWith, none left hleft, none right hright, List.append_nil]
  refine sameIntent_of_steady ?_ ⟨state, ?_, ?_⟩
  all_goals
    rw [decls]
    exact List.forall_mem_nil _

end TypeTree

/-- Types with the same intent have one text, and types with plain names and one text have the same
intent, annotations apart. -/
theorem displayName_identifies_type {left right : Node} (hleft : left.TypeTree)
    (hright : right.TypeTree) (state : Resolution) :
    ((left.sameIntent { annotations := false } right state).1 = true →
      left.displayName = right.displayName) ∧
    ((∀ node ∈ left.nodes ++ right.nodes, Plain node.name) →
      left.displayName = right.displayName →
        (left.sameIntent { annotations := false } right state).1 = true) := by
  rw [hleft.fst_sameIntent hright _ (fun _ => none)]
  refine ⟨hleft.displayName_of_sameWith hright, fun plain same => ?_⟩
  rw [List.forall_mem_append] at plain
  have ends : Ends '>' [] := by simp [Ends]
  refine (hleft.separates hright plain.1 plain.2 _ [] [] ends ends ?_).1
  simp only [same]

/-- A type reference with arguments. -/
def sampleType (number : Nat) (name : String) (isNullable : Bool) (arguments : List Node) : Node :=
  (ofHeader { id := ⟨number⟩, name, handle := .synthetic "type" }
    (.typeRef isNullable)).setList .typeArgs ⟨⟨number⟩, arguments⟩

/-- A nullable type with two arguments, of which the first has no name. -/
def sampleMap (number : Nat) : Node :=
  sampleType number "Map" true
    [sampleType (number + 1) "" false [sampleType (number + 2) "" false []],
      sampleType (number + 3) "big Int" true []]

theorem displayName_identifies_type_of_sampleMap :
    (∀ node ∈ (sampleMap 1).nodes ++ (sampleMap 5).nodes, Plain node.name) ∧
      (sampleMap 1).displayName = "Map<<>, big Int?>?" ∧
      (sampleMap 1).displayName = (sampleMap 5).displayName ∧
      ((sampleMap 1).sameIntent { annotations := false } (sampleMap 5) {}).1 = true := by
  have plain : ∀ node ∈ (sampleMap 1).nodes ++ (sampleMap 5).nodes, Plain node.name := by
    decide +kernel
  have same : (sampleMap 1).displayName = (sampleMap 5).displayName := by decide +kernel
  have left : (sampleMap 1).TypeTree := ⟨by decide +kernel, rfl⟩
  have right : (sampleMap 5).TypeTree := ⟨by decide +kernel, rfl⟩
  obtain ⟨-, identifies⟩ := displayName_identifies_type left right {}
  exact ⟨plain, by decide +kernel, same, identifies plain same⟩

end Node

end DeclTree
