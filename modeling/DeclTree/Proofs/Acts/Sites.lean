import DeclTree.Proofs.Acts.Handling

/-!
# Places apart

Two places in one thing are apart if neither lies inside the other. Then their ways part at some
point, at different lists or at different members of one list, and a change in the one place leaves
what is in the other as it was.
-/

namespace DeclTree

open BenchM Node Workbench

variable {α β : Type}

/-! ## Nodes and things -/

section Frame

variable {change : Change Node α} {result : α} {way other : List Segment}

theorem Segment.throughLists_cases {segments : List Segment} (lists : throughLists segments) :
    segments = [] ∨ ∃ role index rest,
      segments = .members role :: .index index :: rest ∧ throughLists rest := by
  fun_cases throughLists segments with
  | case1 => exact .inl rfl
  | case2 role index rest => exact .inr ⟨role, index, rest, rfl, lists⟩
  | case3 => simp [throughLists] at lists

/-- A change at the end of a way is not seen from the end of another way that leads through lists,
if it is not seen where the ways have parted: by what the other way leads to from there on, or by a
node on the way whose list changes. -/
theorem Node.map_at?_changeAt {node node' : Node} (view : Node → β)
    (h : changeAt change way node = .ok (result, node')) (lists : Segment.throughLists other)
    (below : ∀ rest old new, other = way ++ rest → Segment.throughLists rest →
      change old = .ok (result, new) → (new.at? rest).map view = (old.at? rest).map view)
    (above : ∀ role rest node list, way = other ++ .members role :: rest →
      view (setList node role list) = view node) :
    (node'.at? other).map view = (node.at? other).map view := by
  induction way using List.twoStepInduction generalizing node node' other with
  | nil => exact below other node node' rfl lists h
  | singleton segment => simp [changeAt] at h
  | cons_cons first second way ih _ =>
      obtain ⟨role, index, rfl, rfl⟩ := members_index_of_changeAt (by rw [h]; simp)
      rw [changeAt] at h
      cases found : node.list? role with
      | none => simp [found] at h
      | some list =>
          simp only [found] at h
          obtain ⟨⟨_, items⟩, changed, h⟩ := except_bind_eq_ok.mp h
          obtain ⟨rfl, rfl⟩ := Prod.mk.inj (Except.ok.inj h)
          obtain ⟨member, member', there, changing, rfl⟩ := changeIndex_eq_ok changed
          obtain rfl | ⟨role', index', other, rfl, lists⟩ := Segment.throughLists_cases lists
          · exact congrArg some (above role _ node _ rfl)
          · by_cases same : role' = role
            · subst same
              have items' := itemsIn_of_list? (list?_setList
                { list with items := list.items.set index member' } found)
              rw [at?, at?, itemsIn_of_list? found, items']
              by_cases here : index = index'
              · subst here
                have bound := (List.getElem?_eq_some_iff.mp there).1
                rw [List.getElem?_set_self bound, there]
                refine ih changing lists (fun rest old new split => ?_)
                  fun role rest node list split => ?_
                · exact below rest old new (by rw [split]; rfl)
                · exact above role rest node list (by rw [split]; rfl)
              · rw [List.getElem?_set_ne here]
            · rw [at?, at?, itemsIn, itemsIn, list?_setList_ne _ same]

/-- A list that is replaced is not seen from a list that is neither it nor inside it. -/
theorem Node.map_list?_at?_setList {role role' : Role} {rest : List Segment}
    (lists : Segment.throughLists rest) (apart : ¬ [.members role] <+: rest ++ [.members role'])
    (node : Node) (list : ChildList Node) :
    ((setList node role list).at? rest).map (list? · role') = (node.at? rest).map (list? · role') := by
  obtain rfl | ⟨other, index, rest, rfl, -⟩ := Segment.throughLists_cases lists
  · refine congrArg some (list?_setList_ne list fun same => ?_)
    exact apart (same ▸ List.prefix_rfl)
  · have other_ne : other ≠ role := by
      rintro rfl
      exact apart (List.cons_prefix_cons.mpr ⟨rfl, List.nil_prefix⟩)
    rw [at?, at?, itemsIn, itemsIn, list?_setList_ne list other_ne]

theorem Item.map_at?_changeAt {item item' : Item} {segments segments' : List Segment}
    (view : Node → β) (h : changeAt change segments item = .ok (result, item'))
    (hway : item.way? segments = some way) (hother : item.way? segments' = some other)
    (below : ∀ rest old new, other = way ++ rest → Segment.throughLists rest →
      change old = .ok (result, new) → (new.at? rest).map view = (old.at? rest).map view)
    (above : ∀ role rest node list, way = other ++ .members role :: rest →
      view (Node.setList node role list) = view node) :
    (item'.at? segments').map view = (item.at? segments').map view := by
  unfold changeAt at h
  split at h
  next segments root =>
    obtain ⟨⟨_, root'⟩, changed, h⟩ := except_bind_eq_ok.mp h
    obtain ⟨rfl, rfl⟩ := Prod.mk.inj (Except.ok.inj h)
    simp only [way?, Option.ite_none_right_eq_some, Option.some.injEq] at hway hother
    obtain ⟨-, rfl⟩ := hway
    obtain ⟨lists, rfl⟩ := hother
    exact Node.map_at?_changeAt view changed lists below above
  next index rest kind members =>
    obtain ⟨⟨_, items⟩, changed, h⟩ := except_bind_eq_ok.mp h
    obtain ⟨rfl, rfl⟩ := Prod.mk.inj (Except.ok.inj h)
    obtain ⟨member, member', there, changing, rfl⟩ := changeIndex_eq_ok changed
    obtain ⟨index', rest', rfl⟩ : ∃ index' rest', segments' = .index index' :: rest' := by
      rcases segments' with _ | ⟨_ | _ | _ | _ | _ | _, rest'⟩ <;> simp [way?] at hother ⊢
    simp only [way?, Option.ite_none_right_eq_some, Option.some.injEq] at hway hother
    obtain ⟨-, rfl⟩ := hway
    obtain ⟨lists, rfl⟩ := hother
    rw [at?, at?]
    by_cases here : index = index'
    · subst here
      rw [List.getElem?_set_self (List.getElem?_eq_some_iff.mp there).1, there]
      refine Node.map_at?_changeAt view changing lists (fun more old new split => ?_)
        fun role more node list split => ?_
      · exact below more old new (congrArg _ split)
      · exact above role more node list (congrArg _ split)
    · rw [List.getElem?_set_ne here]
  next segments kind place =>
    split at h
    next root hroot =>
      obtain ⟨⟨_, root'⟩, changed, h⟩ := except_bind_eq_ok.mp h
      obtain ⟨rfl, rfl⟩ := Prod.mk.inj (Except.ok.inj h)
      simp only [way?, Option.ite_none_right_eq_some, Option.some.injEq] at hway hother
      obtain ⟨-, rfl⟩ := hway
      obtain ⟨lists, rfl⟩ := hother
      rw [at?, at?, hroot]
      exact Node.map_at?_changeAt view changed lists below above
    next => cases h
  next => cases h

end Frame

theorem Item.way?_list (kind kind' : Kind) (list list' : ChildList Node) (segments : List Segment) :
    (Item.list kind list).way? segments = (Item.list kind' list').way? segments := by
  cases segments with
  | nil => rfl
  | cons segment segments => cases segment <;> rfl

theorem Item.Rewrites.way?_eq {old new : Node} {item item' : Item} (h : Rewrites old new item item')
    (segments : List Segment) : item'.way? segments = item.way? segments := by
  cases h with
  | root inner => rfl
  | member kind inner => exact way?_list _ _ _ _ segments
  | occupant kind inner => rfl

/-! ## Places on the workbench -/

theorem Site.apart_iff {left right : Site} :
    left.apart right ↔
      left.root ≠ right.root ∨ ¬ left.way <+: right.way ∧ ¬ right.way <+: left.way := by
  simp [apart, ← List.isPrefixOf_iff_prefix]

theorem Site.apart_comm {left right : Site} : left.apart right ↔ right.apart left := by
  rw [apart_iff, apart_iff, ne_comm, and_comm]

namespace Workbench

/-- Where a node that can be changed is. -/
def site? (bench : Workbench) (path : Path) : Option Site :=
  (bench.items.get? path.register).bind fun item =>
    (item.way? path.segments).map fun way => ⟨path.register, way⟩

/-- Where a list that can be changed is. -/
def listSite? (bench : Workbench) : ListPath → Option Site
  | .register name => some ⟨name, []⟩
  | .branch path role =>
      if role = .parameters then none
      else (bench.site? path).map fun site => { site with way := site.way ++ [.members role] }

end Workbench

theorem reads_siteOf (path : Path) : Reads (siteOf path) fun bench => bench.site? path := by
  refine (reads_item path.register).bind fun item => ?_
  cases item.way? path.segments <;> exact fun _ => rfl

theorem reads_listSiteOf (path : ListPath) :
    Reads (listSiteOf path) fun bench => bench.listSite? path := by
  cases path with
  | register name => exact fun _ => rfl
  | branch path role =>
      intro bench
      by_cases parameters : role = .parameters
      · subst parameters
        rfl
      · have site := reads_siteOf path bench
        have required : outcome (requireThat (role ≠ .parameters)) bench = (.ok (), bench) := by
          rw [decide_eq_true parameters]
          rfl
        rw [listSiteOf, outcome_bind, required]
        simp only [listSite?, if_neg parameters]
        rw [outcome_bind, site]
        dsimp only
        cases bench.site? path <;> rfl

namespace Workbench

section Apart

variable {bench bench' : Workbench} {a : α} {site other : Site}

theorem site?_eq_some {path : Path} (h : bench.site? path = some site) :
    path.register = site.root ∧
      ∃ item, bench.items.get? path.register = some item ∧ item.way? path.segments = some site.way := by
  obtain ⟨item, found, h⟩ := Option.bind_eq_some_iff.mp h
  obtain ⟨way, hway, rfl⟩ := Option.map_eq_some_iff.mp h
  exact ⟨rfl, item, found, hway⟩

/-- A change of a node is not seen from a place where nothing of it is seen. -/
theorem map_nodeAt?_changeNode {path path' : Path} {change : Change Node α} (view : Node → β)
    (h : Returns (changeNode path change) bench a bench') (here : bench.site? path = some site)
    (there : bench.site? path' = some other)
    (below : other.root = site.root → ∀ rest old new, other.way = site.way ++ rest →
      Segment.throughLists rest → change old = .ok (a, new) →
        (new.at? rest).map view = (old.at? rest).map view)
    (above : other.root = site.root → ∀ role rest node list,
      site.way = other.way ++ .members role :: rest → view (Node.setList node role list) = view node) :
    (bench'.nodeAt? path').map view = (bench.nodeAt? path').map view := by
  obtain ⟨item, item', found, changed, rfl⟩ := returned_changeNode h
  obtain ⟨root, _, found', hway⟩ := site?_eq_some here
  obtain ⟨root', item₁, found₁, hother⟩ := site?_eq_some there
  rw [found] at found'
  obtain rfl := Option.some.inj found'
  by_cases same : path'.register = path.register
  · have roots : other.root = site.root := by rw [← root, ← root', same]
    rw [same, found] at found₁
    obtain rfl := Option.some.inj found₁
    rw [nodeAt?, nodeAt?, same, found]
    simp only [place, Table.get?_insert_self, Option.bind_some]
    exact Item.map_at?_changeAt view changed hway hother (below roots) (above roots)
  · rw [nodeAt?_congr (Table.get?_insert_ne _ same _)]

/-- A change of a node leaves a node apart from it as it was. -/
theorem nodeAt?_of_apart {path path' : Path} {change : Change Node α}
    (h : Returns (changeNode path change) bench a bench') (here : bench.site? path = some site)
    (there : bench.site? path' = some other) (apart : site.apart other) :
    bench'.nodeAt? path' = bench.nodeAt? path' := by
  have ways : other.root = site.root → ¬ site.way <+: other.way ∧ ¬ other.way <+: site.way :=
    fun same => (Site.apart_iff.mp apart).resolve_left fun differ => differ same.symm
  have seen := map_nodeAt?_changeNode (fun node => node) h here there
    (fun same rest _ _ split => absurd ⟨rest, split.symm⟩ (ways same).1)
    fun same role rest _ _ split => absurd ⟨_, split.symm⟩ (ways same).2
  rwa [Option.map_id', Option.map_id'] at seen

theorem listSite?_branch {path : Path} {role : Role}
    (h : bench.listSite? (.branch path role) = some site) :
    ∃ inner, bench.site? path = some inner ∧ site = ⟨inner.root, inner.way ++ [.members role]⟩ := by
  by_cases parameters : role = .parameters
  · simp [listSite?, parameters] at h
  · rw [listSite?, if_neg parameters] at h
    obtain ⟨inner, found, rfl⟩ := Option.map_eq_some_iff.mp h
    exact ⟨inner, found, rfl⟩

theorem listSite?_root {path : ListPath} (h : bench.listSite? path = some site) :
    site.root = path.root := by
  cases path with
  | register name =>
      obtain rfl := Option.some.inj h
      rfl
  | branch path role =>
      obtain ⟨inner, found, rfl⟩ := listSite?_branch h
      exact (site?_eq_some found).1.symm

theorem listAt?_branch_congr {path : Path} {role : Role}
    (h : (bench'.nodeAt? path).map (Node.list? · role) = (bench.nodeAt? path).map (Node.list? · role)) :
    bench'.listAt? (.branch path role) = bench.listAt? (.branch path role) := by
  have read : ∀ bench : Workbench, bench.listAt? (.branch path role) =
      ((bench.nodeAt? path).map (Node.list? · role)).bind fun list? =>
        list?.map fun list => (role.kind, list) := by
    intro bench
    rw [listAt?, Option.bind_map]
    rfl
  rw [read, read, h]

theorem listAt?_branch_of_apart {path path' : Path} {role role' : Role}
    {change : Change (ChildList Node) α}
    (h : Returns (changeList (.branch path role) change) bench a bench')
    (here : bench.site? path = some site) (there : bench.site? path' = some other)
    (outside : ¬ site.way ++ [.members role] <+: other.way ++ [.members role'])
    (inside : ¬ other.way ++ [.members role'] <+: site.way ++ [.members role]) :
    bench'.listAt? (.branch path' role') = bench.listAt? (.branch path' role') := by
  obtain ⟨_, _, required, changed⟩ := returns_bind.mp h
  obtain ⟨rfl, -⟩ := returned_requireThat required
  refine listAt?_branch_congr (map_nodeAt?_changeNode _ changed here there
    (fun _ rest old new split lists changing => ?_) fun _ between rest node list split => ?_)
  · cases found : old.list? role with
    | none => simp [found] at changing
    | some list =>
        simp only [found] at changing
        obtain ⟨⟨_, list'⟩, -, result⟩ := except_bind_eq_ok.mp changing
        obtain ⟨-, rfl⟩ := Prod.mk.inj (Except.ok.inj result)
        refine Node.map_list?_at?_setList lists (fun leads => outside ?_) old list'
        rw [split, List.append_assoc]
        exact (List.prefix_append_right_inj _).mpr leads
  · refine Node.list?_setList_ne list fun same => inside ?_
    rw [split, List.append_assoc, same]
    exact (List.prefix_append_right_inj _).mpr (List.cons_prefix_cons.mpr ⟨rfl, List.nil_prefix⟩)

/-- A change of a list leaves a list apart from it as it was. -/
theorem listAt?_of_apart {path path' : ListPath} {change : Change (ChildList Node) α}
    (h : Returns (changeList path change) bench a bench') (here : bench.listSite? path = some site)
    (there : bench.listSite? path' = some other) (apart : site.apart other) :
    bench'.listAt? path' = bench.listAt? path' := by
  by_cases roots : other.root = site.root
  · obtain ⟨outside, inside⟩ :=
      (Site.apart_iff.mp apart).resolve_left fun differ => differ roots.symm
    match path, path' with
    | .register _, _ =>
        obtain rfl := Option.some.inj here
        exact absurd (List.nil_prefix) outside
    | .branch _ _, .register _ =>
        obtain rfl := Option.some.inj there
        exact absurd (List.nil_prefix) inside
    | .branch path role, .branch path' role' =>
        obtain ⟨site, hsite, rfl⟩ := listSite?_branch here
        obtain ⟨other, hother, rfl⟩ := listSite?_branch there
        exact listAt?_branch_of_apart h hsite hother outside inside
  · obtain ⟨_, _, _, -, -, rewrites⟩ := exists_of_changeList h
    rw [listSite?_root here, listSite?_root there] at roots
    exact listAt?_congr (rewrites.others _ roots)

end Apart

/-! Whatever is changed, things stay where they are. -/

section Located

variable {bench bench' : Workbench}

theorem site?_place {name : String} {item item' : Item} (found : bench.items.get? name = some item)
    (same : ∀ segments, item'.way? segments = item.way? segments) (path : Path) :
    (bench.place name item').site? path = bench.site? path := by
  by_cases here : path.register = name
  · simp only [site?, place, here, found, Table.get?_insert_self, Option.bind_some, same]
  · simp only [site?, place, Table.get?_insert_ne _ here]

theorem listSite?_congr (h : ∀ path, bench'.site? path = bench.site? path) (path : ListPath) :
    bench'.listSite? path = bench.listSite? path := by
  cases path with
  | register name => rfl
  | branch path role => simp only [listSite?, h]

theorem Rewrites.site?_eq {path : Path} {old new : Node} (h : Rewrites path old new bench bench')
    (other : Path) : bench'.site? other = bench.site? other := by
  obtain ⟨item, item', found, inner, rfl⟩ := h.placed
  exact site?_place found inner.way?_eq other

theorem RewritesList.site?_eq {path : ListPath} {old new : ChildList Node}
    (h : RewritesList bench path old new bench') (other : Path) :
    bench'.site? other = bench.site? other := by
  cases h with
  | register new found =>
      exact site?_place found (Item.way?_list _ _ _ _) other
  | branch role_ne found inner => exact inner.site?_eq other

theorem RewritesList.left {path : ListPath} {kind : Kind} {old new : ChildList Node}
    (h : RewritesList bench path old new bench') (found : bench.listAt? path = some (kind, old)) :
    bench'.listAt? path = some (kind, new) := by
  cases h with
  | register new there =>
      simp only [listAt?, there, Option.bind_some, Option.some.injEq, Prod.mk.injEq] at found
      simp only [listAt?, place, Table.get?_insert_self, Option.bind_some, found.1]
  | branch role_ne there inner =>
      simp only [listAt?, inner.found, Option.bind_some, there, Option.map_some, Option.some.injEq,
        Prod.mk.injEq] at found
      simp only [listAt?, inner.left, Option.bind_some, Node.list?_setList _ there, Option.map_some,
        found.1]

end Located

end Workbench

/-! ## Two things at once -/

section Both

variable {ε π σ : Type} {access : Access π σ} {look : Workbench → π → Option σ}
  {locate : Workbench → π → Option Site}

/-- What is found at a path is what was written there last, and what is apart from it is not touched. -/
structure BenchM.Access.Lawful (access : Access π σ) (look : Workbench → π → Option σ)
    (locate : Workbench → π → Option Site) : Prop where
  reads_site : ∀ path, Reads (access.site path) fun bench => locate bench path
  reads : ∀ path, Reads (access.read path) fun bench => look bench path
  cautious : ∀ path value, Cautious (access.write path value)
  written : ∀ {path value bench bench'}, Returns (access.write path value) bench () bench' →
    look bench' path = some value ∧ ∀ other, locate bench' other = locate bench other
  apart : ∀ {path other value bench bench' site site'},
    Returns (access.write path value) bench () bench' → locate bench path = some site →
      locate bench other = some site' → site.apart site' → look bench' other = look bench other

theorem nodeAccess_lawful : nodeAccess.Lawful nodeAt? site? where
  reads_site := reads_siteOf
  reads := reads_nodeAt
  cautious _ _ := changeNode_cautious
  written returned := by
    obtain ⟨_, _, changed, rewrites⟩ := exists_of_changeNode returned
    obtain ⟨-, rfl⟩ := Prod.mk.inj (Except.ok.inj changed)
    exact ⟨rewrites.left, rewrites.site?_eq⟩
  apart := nodeAt?_of_apart

/-- The list that a path names. -/
def Workbench.listIn? (bench : Workbench) (path : ListPath) : Option (ChildList Node) :=
  (bench.listAt? path).map Prod.snd

theorem listAccess_lawful : listAccess.Lawful listIn? listSite? where
  reads_site := reads_listSiteOf
  reads path bench := by
    have read := (reads_listAt path) bench
    rw [listAccess, outcome_bind, read]
    unfold listIn?
    dsimp only
    cases bench.listAt? path <;> rfl
  cautious _ _ := changeList_cautious
  written returned := by
    obtain ⟨_, _, _, found, changed, rewrites⟩ := exists_of_changeList returned
    obtain ⟨-, rfl⟩ := Prod.mk.inj (Except.ok.inj changed)
    refine ⟨?_, listSite?_congr rewrites.site?_eq⟩
    rw [listIn?, rewrites.left found]
    rfl
  apart returned here there apart :=
    congrArg (Option.map Prod.snd) (listAt?_of_apart returned here there apart)

namespace BenchM.Access.Lawful

variable {source dest : π} {run : InPlace ε (σ × σ) α} {bench bench' : Workbench}
  {result : Except ε α}

/-- An operation on two things works on what is found there, and both are written one after the
other. -/
theorem returned_inBoth (lawful : access.Lawful look locate)
    (h : Returns (inBoth access source dest run) bench result bench') :
    ∃ first second between, look bench source = some first ∧ look bench dest = some second ∧
      result = (outcome run (first, second)).1 ∧
      Returns (access.write source (outcome run (first, second)).2.1) bench () between ∧
      Returns (access.write dest (outcome run (first, second)).2.2) between () bench' ∧
      look between dest = some second ∧
      look bench' source = some (outcome run (first, second)).2.1 ∧
      look bench' dest = some (outcome run (first, second)).2.2 := by
  obtain ⟨site, here, h⟩ := (lawful.reads_site source).returned_bind h
  obtain ⟨other, there, h⟩ := (lawful.reads_site dest).returned_bind h
  obtain ⟨apart, h⟩ := requireThat_returned_bind h
  obtain ⟨first, found, h⟩ := (lawful.reads source).returned_bind h
  obtain ⟨second, found', h⟩ := (lawful.reads dest).returned_bind h
  obtain ⟨_, between, wrote, h⟩ := returns_bind.mp h
  obtain ⟨_, _, wrote', h⟩ := returns_bind.mp h
  obtain ⟨rfl, rfl⟩ := returns_pure.mp h
  obtain ⟨left, located⟩ := lawful.written wrote
  refine ⟨first, second, between, found, found', rfl, wrote, wrote', ?_, ?_, ?_⟩
  · exact (lawful.apart wrote here there apart).trans found'
  · exact (lawful.apart wrote' ((located dest).trans there) ((located source).trans here)
      (Site.apart_comm.mp apart)).trans left
  · exact (lawful.written wrote').1

end BenchM.Access.Lawful

end Both

end DeclTree
