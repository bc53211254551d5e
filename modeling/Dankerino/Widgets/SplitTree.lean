import Dankerino.Infra.FilteredIndex
import Dankerino.Widgets.SplitContainer

/-!
# Well-formed split trees

`TreeOk` is what every node operation keeps. For each operation there is one lemma that gives the
new tree as an equation about a context (`insertNextToThis_plug`, `nestSplitIntoCollection_nest`,
`releaseSplit_collapse`, …). That the new tree is well-formed, and which splits it has, is then read
off the equation.
-/

namespace Dankerino

open Infra Infra.RoseTree

/--
A node by itself: its `parent_` is the node that holds it, only a root is an empty root, a node of
type `_Split` has a split and no children, and a container has at least two children and no split.
-/
structure NodeOk (par : Option Addr) (d : NodeData) (children : Nat) : Prop where
  parent : d.parent = par
  emptyRoot : d.type = .emptyRoot → par = none ∧ children = 0 ∧ d.split = none
  split : d.type = .split → children = 0 ∧ d.split.isSome
  container : d.type = .verticalContainer ∨ d.type = .horizontalContainer →
    2 ≤ children ∧ d.split = none

abbrev EachOk (par : Option Addr) (n : Node) : Prop := Each NodeData.addr NodeOk par n

structure TreeOk (root : Node) : Prop where
  each : EachOk none root
  nodup : root.addrs.Nodup

/-- What a node keeps whatever layout it was loaded from, where a container has any number of
children. -/
structure NodeLinked (par : Option Addr) (d : NodeData) (children : Nat) : Prop where
  parent : d.parent = par
  emptyRoot : d.type = .emptyRoot → par = none
  split : d.type = .split → children = 0

abbrev EachLinked (par : Option Addr) (n : Node) : Prop := Each NodeData.addr NodeLinked par n

structure Linked (root : Node) : Prop where
  each : EachLinked none root
  nodup : root.addrs.Nodup

theorem NodeOk.linked {par : Option Addr} {d : NodeData} {children : Nat}
    (h : NodeOk par d children) : NodeLinked par d children where
  parent := h.parent
  emptyRoot ht := (h.emptyRoot ht).1
  split ht := (h.split ht).1

theorem TreeOk.linked {root : Node} (h : TreeOk root) : Linked root where
  each := Each.mono _ _ (fun _ _ _ => NodeOk.linked) h.each
  nodup := h.nodup

namespace Node

/-! ## Nodes by themselves -/

theorem toContainerType_or (direction : Direction) :
    toContainerType direction = .verticalContainer ∨
      toContainerType direction = .horizontalContainer := by
  cases direction <;> decide

theorem toContainerType_ne (direction : Direction) :
    toContainerType direction ≠ .emptyRoot ∧ toContainerType direction ≠ .split := by
  cases direction <;> decide

theorem new_ok (b : Block) (split : Split) (p : Addr) : EachOk (some p) (new b split (some p)) := by
  rw [new, EachOk, each_node]
  refine ⟨⟨rfl, nofun, fun _ => ⟨rfl, rfl⟩, ?_⟩, by simp⟩
  rintro (h | h) <;> cases h

theorem setParent_ok {q : Addr} (p : Addr) {n : Node} (h : EachOk (some q) n) :
    EachOk (some p) (setParent p n) := by
  cases n with
  | node d cs =>
    rw [EachOk, each_node] at h
    rw [setParent, EachOk, each_node]
    refine ⟨⟨rfl, ?_, h.1.split, h.1.container⟩, h.2⟩
    intro he
    exact absurd (h.1.emptyRoot he).1 nofun

theorem new_linked (b : Block) (split : Split) (p : Addr) :
    EachLinked (some p) (new b split (some p)) :=
  (each_node ..).mpr ⟨⟨rfl, nofun, fun _ => rfl⟩, by simp⟩

theorem setParent_linked {q : Addr} (p : Addr) {n : Node} (h : EachLinked (some q) n) :
    EachLinked (some p) (setParent p n) := by
  cases n with
  | node d cs =>
    obtain ⟨hd, hcs⟩ := (each_node ..).mp h
    exact (each_node ..).mpr ⟨⟨rfl, fun he => absurd (hd.emptyRoot he) nofun, hd.split⟩, hcs⟩

@[simp] theorem label_setParent_addr (p : Addr) (n : Node) :
    (setParent p n).label.addr = n.label.addr := rfl

@[simp] theorem addrs_setParent (p : Addr) (n : Node) : (setParent p n).addrs = n.addrs := by
  cases n
  rfl

theorem keysAll_setParent (p : Addr) (ns : List Node) :
    keysAll NodeData.addr (ns.map (setParent p)) = keysAll NodeData.addr ns := by
  induction ns with
  | nil => rfl
  | cons n ns ih =>
    rw [List.map_cons, keysAll_cons, keysAll_cons, ih]
    congr 1
    exact addrs_setParent p n

/-- The splits of a list of trees in depth-first order. -/
def forestSplits (ns : List Node) : List Split := (labelsAll ns).filterMap leafSplit

@[simp] theorem forestSplits_nil : forestSplits [] = [] := rfl

@[simp] theorem forestSplits_cons (n : Node) (ns : List Node) :
    forestSplits (n :: ns) = n.leafSplits ++ forestSplits ns := by
  simp [forestSplits, leafSplits]

@[simp] theorem forestSplits_append (ns ms : List Node) :
    forestSplits (ns ++ ms) = forestSplits ns ++ forestSplits ms := by
  simp [forestSplits]

theorem leafSplits_node (d : NodeData) (cs : List Node) :
    leafSplits (.node d cs) = (leafSplit d).toList ++ forestSplits cs := by
  rw [leafSplits, labels_node, List.filterMap_cons]
  cases leafSplit d <;> rfl

theorem leafSplits_setParent (p : Addr) (n : Node) : (setParent p n).leafSplits = n.leafSplits := by
  cases n with
  | node d cs => rw [setParent, leafSplits_node, leafSplits_node]; rfl

theorem forestSplits_setParent (p : Addr) (ns : List Node) :
    forestSplits (ns.map (setParent p)) = forestSplits ns := by
  induction ns with
  | nil => rfl
  | cons n ns ih => rw [List.map_cons, forestSplits_cons, forestSplits_cons, ih, leafSplits_setParent]

/-- A node that holds no split itself contributes what its children do. -/
theorem leafSplits_of_split_none {d : NodeData} (cs : List Node) (h : d.split = none) :
    leafSplits (.node d cs) = forestSplits cs := by
  rw [leafSplits_node, leafSplit, h]
  split <;> rfl

@[simp] theorem leafSplits_new (b : Block) (split : Split) (p : Option Addr) :
    (new b split p).leafSplits = [split] := rfl

/-- Every node below the root has a split below it. -/
theorem leafSplits_ne_nil {p : Addr} {n : Node} (h : EachOk (some p) n) : n.leafSplits ≠ [] := by
  induction n using RoseTree.induct generalizing p with
  | node d cs ih =>
    rw [EachOk, each_node] at h
    obtain ⟨hd, hcs⟩ := h
    cases ht : d.type with
    | emptyRoot => exact absurd (hd.emptyRoot ht).1 nofun
    | split =>
      obtain ⟨x, hx⟩ := Option.isSome_iff_exists.mp (hd.split ht).2
      rw [leafSplits_node, leafSplit, if_pos ht, hx]
      exact nofun
    | verticalContainer | horizontalContainer =>
      -- a container has a child, and the child has a split below it
      obtain ⟨hlen, hnone⟩ := hd.container (by simp [ht])
      rw [leafSplits_of_split_none cs hnone]
      cases cs with
      | nil => simp at hlen
      | cons c cs =>
        rw [forestSplits_cons]
        intro he
        exact ih c (List.mem_cons_self ..) (hcs c (List.mem_cons_self ..))
          (List.append_eq_nil_iff.mp he).1

/-- Splits with those before and after the hole of a context. -/
def around (ctx : Ctx NodeData) (splits : List Split) : List Split :=
  (before ctx).filterMap leafSplit ++ (splits ++ (after ctx).filterMap leafSplit)

theorem leafSplits_plug (ctx : Ctx NodeData) (n : Node) :
    leafSplits (plug ctx n) = around ctx n.leafSplits := by
  simp [leafSplits, around, labels_plug]

theorem around_cons (f : Frame NodeData) (ctx : Ctx NodeData) (splits : List Split) :
    around (f :: ctx) splits = around ctx
      ((leafSplit f.label).toList ++ (forestSplits f.left ++ (splits ++ forestSplits f.right))) := by
  simp only [around, before, after, List.filterMap_append, List.filterMap_cons, forestSplits]
  cases leafSplit f.label <;> simp

end Node

open Node

/-! ## Exchanging a node -/

/-- Exchanging the node in the hole of a well-formed tree. -/
theorem TreeOk.exchange {ctx : Ctx NodeData} {n n' : Node} (h : TreeOk (plug ctx n))
    (hn' : EachOk (holder NodeData.addr none ctx) n') (hnd : (addrs (plug ctx n')).Nodup) :
    TreeOk (plug ctx n') where
  each := (each_plug ..).mpr ⟨((each_plug ..).mp h.each).1, hn'⟩
  nodup := hnd

theorem Linked.exchange {ctx : Ctx NodeData} {n n' : Node} (h : Linked (plug ctx n))
    (hn' : EachLinked (holder NodeData.addr none ctx) n') (hnd : (addrs (plug ctx n')).Nodup) :
    Linked (plug ctx n') where
  each := (each_plug ..).mpr ⟨((each_plug ..).mp h.each).1, hn'⟩
  nodup := hnd

theorem TreeOk.hole {ctx : Ctx NodeData} {n : Node} (h : TreeOk (plug ctx n)) :
    EachOk (holder NodeData.addr none ctx) n := ((each_plug ..).mp h.each).2

theorem Linked.hole {ctx : Ctx NodeData} {n : Node} (h : Linked (plug ctx n)) :
    EachLinked (holder NodeData.addr none ctx) n := ((each_plug ..).mp h.each).2

/-- The `parent_` of the node in the hole is the node around it. -/
theorem Linked.parent {ctx : Ctx NodeData} {n : Node} (h : Linked (plug ctx n)) :
    n.label.parent = holder NodeData.addr none ctx := by
  have hn := h.hole
  cases n with
  | node d cs => exact ((each_node ..).mp hn).1.parent

theorem TreeOk.parent {ctx : Ctx NodeData} {n : Node} (h : TreeOk (plug ctx n)) :
    n.label.parent = holder NodeData.addr none ctx := h.linked.parent

theorem mem_addrs_plug {a : Addr} (ctx : Ctx NodeData) {n : Node} (h : a ∈ n.addrs) :
    a ∈ addrs (plug ctx n) := by
  rw [addrs, keys_plug]
  exact List.mem_append_right _ (List.mem_append_left _ h)

theorem Linked.root_parent {n : Node} (h : Linked n) : n.label.parent = none :=
  (show Linked (plug [] n) from h).parent

/-! ## Reaching nodes -/

theorem get_plug (ctx : Ctx NodeData) (n : Node) (hnd : (addrs (plug ctx n)).Nodup) :
    get (plug ctx n) n.label.addr = some n := lookup_plug NodeData.addr ctx n hnd rfl

theorem update_plug (ctx : Ctx NodeData) (n : Node) (f : Node → Node)
    (hnd : (addrs (plug ctx n)).Nodup) :
    update (plug ctx n) n.label.addr f = plug ctx (f n) :=
  modify_plug_self NodeData.addr f ctx n hnd rfl

theorem isOrContainsNode_iff (root : Node) (a : Addr) :
    isOrContainsNode root a = true ↔ ∃ ctx n, root = plug ctx n ∧ n.label.addr = a := by
  constructor
  · intro h
    obtain ⟨n, hn⟩ := Option.isSome_iff_exists.mp h
    obtain ⟨ha, ctx, rfl⟩ := exists_plug NodeData.addr hn
    exact ⟨ctx, n, rfl, ha⟩
  · rintro ⟨ctx, n, rfl, rfl⟩
    refine lookup_isSome NodeData.addr _ ?_
    rw [keys_plug]
    exact List.mem_append_right _ (List.mem_append_left _ (key_mem_keys NodeData.addr n))

/-- A split of the tree is found, in a node of its own. -/
theorem findNodeContainingSplit_of_mem {root : Node} {x : Split} (h : x ∈ root.leafSplits) :
    ∃ ctx n, findNodeContainingSplit (some x) root = some n ∧ root = plug ctx n ∧
      n.label.type = .split ∧ n.label.split = some x := by
  obtain ⟨d, hd, hx⟩ := List.mem_filterMap.mp h
  have hkey : (NodeType.split, some x) ∈ keys (fun d : NodeData => (d.type, d.split)) root := by
    refine List.mem_map.mpr ⟨d, hd, ?_⟩
    rw [leafSplit] at hx
    split at hx
    · next ht => rw [ht, hx]
    · cases hx
  obtain ⟨n, hn⟩ := Option.isSome_iff_exists.mp (lookup_isSome _ root hkey)
  obtain ⟨hk, ctx, rfl⟩ := exists_plug _ hn
  exact ⟨ctx, n, hn, rfl, congrArg Prod.fst hk, congrArg Prod.snd hk⟩

/-- A node that is found has a place in the tree. -/
theorem findNodeContainingSplit_eq_some {root n : Node} {x : Option Split}
    (h : findNodeContainingSplit x root = some n) :
    n.label.type = .split ∧ n.label.split = x ∧ ∃ ctx, root = plug ctx n := by
  obtain ⟨hk, ctx, rfl⟩ := exists_plug _ h
  exact ⟨congrArg Prod.fst hk, congrArg Prod.snd hk, ctx, rfl⟩

theorem addr_ne_sibling {left right : List Node} {n m : Node}
    (hnd : (keysAll NodeData.addr (left ++ n :: right)).Nodup) (hm : m ∈ left ∨ m ∈ right) :
    m.label.addr ≠ n.label.addr := by
  rw [keysAll_append, keysAll_cons] at hnd
  obtain ⟨-, hnr, hdisj⟩ := List.nodup_append.mp hnd
  have hkey : ∀ ms : List Node, m ∈ ms → m.label.addr ∈ keysAll NodeData.addr ms := fun ms h =>
    List.mem_map_of_mem (mem_labelsAll.mpr ⟨m, h, label_mem_labels m⟩)
  have hn : n.label.addr ∈ keys NodeData.addr n := key_mem_keys NodeData.addr n
  rcases hm with hm | hm
  · exact hdisj _ (hkey _ hm) _ (List.mem_append_left _ hn)
  · exact fun he => (List.nodup_append.mp hnr).2.2 _ hn _ (hkey _ hm) he.symm

/-- A node among its siblings is found at its own place. -/
theorem findIdx?_sibling {left right : List Node} {n : Node}
    (hnd : (keysAll NodeData.addr (left ++ n :: right)).Nodup) :
    (left ++ n :: right).findIdx? (fun m => m.label.addr = n.label.addr) = some left.length := by
  have hleft : left.findIdx? (fun m => m.label.addr = n.label.addr) = none :=
    List.findIdx?_eq_none_iff.mpr fun m hm => by simpa using addr_ne_sibling hnd (.inl hm)
  rw [List.findIdx?_append, hleft]
  simp [List.findIdx?_cons]

/-- A node is the last of its siblings when nothing stands to the right of it. -/
theorem getLast?_sibling {left right : List Node} {n : Node}
    (hnd : (keysAll NodeData.addr (left ++ n :: right)).Nodup) :
    (left ++ n :: right).getLast?.map (fun m => m.label.addr) = some n.label.addr ↔
      right = [] := by
  rw [List.getLast?_append]
  cases right with
  | nil => simp
  | cons m right =>
    have hlast : (n :: m :: right).getLast? = some ((m :: right).getLast nofun) := by
      rw [List.getLast?_cons_cons, List.getLast?_eq_some_getLast]
    rw [hlast]
    have hne := addr_ne_sibling hnd (.inr (List.getLast_mem (l := m :: right) nofun))
    simpa using hne

/-- The addresses of a node's children are distinct. -/
theorem nodup_children {ctx : Ctx NodeData} {f : Frame NodeData} {n : Node}
    (hnd : (addrs (plug (f :: ctx) n)).Nodup) :
    (keysAll NodeData.addr (f.left ++ n :: f.right)).Nodup :=
  (List.nodup_cons.mp (nodup_of_plug NodeData.addr ctx _ hnd)).2

/-! ## Inserting -/

/-- A node and the new one on a side of it. -/
def beside (direction : Direction) (n new : Node) : List Node :=
  if direction = .right ∨ direction = .below then [n, new] else [new, n]

theorem insertNextToThis_plug {ctx : Ctx NodeData} {f : Frame NodeData} {n : Node} (split : Split)
    (direction : Direction) (b : Block) (hnd : (addrs (plug (f :: ctx) n)).Nodup)
    (hp : n.label.parent = some f.label.addr) :
    insertNextToThis (plug (f :: ctx) n) n.label.addr split direction b =
      some (plug ctx (.node f.label
        (f.left ++ (beside direction n (new b split (some f.label.addr)) ++ f.right)))) := by
  have hget : get (plug (f :: ctx) n) f.label.addr
      = some (.node f.label (f.left ++ n :: f.right)) := get_plug ctx _ hnd
  have hupd := fun g => update_plug ctx (.node f.label (f.left ++ n :: f.right)) g hnd
  simp only [insertNextToThis, get_plug _ _ hnd, hp, hget, children_node,
    findIdx?_sibling (nodup_children hnd), Option.bind_eq_bind, Option.bind_some]
  refine congrArg some ?_
  rw [plug_cons]
  refine (hupd _).trans ?_
  congr 2
  rw [beside]
  by_cases hd : direction = .right ∨ direction = .below
  · rw [if_pos hd, if_pos hd]
    have := insertIdx_length_append (f.left ++ [n]) f.right (new b split (some f.label.addr))
    simpa using this
  · rw [if_neg hd, if_neg hd]
    exact insertIdx_length_append ..

theorem nestSplitIntoCollection_append {ctx : Ctx NodeData} {n : Node} (split : Split)
    {direction : Direction} (c b : Block) (hnd : (addrs (plug ctx n)).Nodup)
    (ht : toContainerType direction = n.label.type) :
    nestSplitIntoCollection (plug ctx n) n.label.addr split direction c b =
      some (plug ctx (.node n.label (n.children ++ [new b split (some n.label.addr)]))) := by
  simp only [nestSplitIntoCollection, get_plug _ _ hnd, Option.bind_eq_bind, Option.bind_some]
  rw [if_pos ht, update_plug _ _ _ hnd]

/-- The container that a node becomes when it is nested: its clone beside the new node. -/
def nested (n : Node) (split : Split) (direction : Direction) (c b : Block) : Node :=
  .node { n.label with type := toContainerType direction, split := none }
    (beside direction (clone n c) (new b split (some n.label.addr)))

theorem addrs_clone (n : Node) (c : Block) :
    (clone n c).addrs = c.addr :: keysAll NodeData.addr n.children := by
  rw [clone, addrs, keys_node, keysAll_setParent]

theorem addrs_eq_cons (n : Node) :
    n.addrs = n.label.addr :: keysAll NodeData.addr n.children := by
  cases n
  rfl

theorem nestSplitIntoCollection_nest {ctx : Ctx NodeData} {n : Node} (split : Split)
    {direction : Direction} (c b : Block) (hnd : (addrs (plug ctx n)).Nodup)
    (hc : c.addr ∉ addrs (plug ctx n)) (ht : toContainerType direction ≠ n.label.type) :
    nestSplitIntoCollection (plug ctx n) n.label.addr split direction c b =
      some (plug ctx (nested n split direction c b)) := by
  simp only [nestSplitIntoCollection, get_plug _ _ hnd, Option.bind_eq_bind, Option.bind_some]
  rw [if_neg ht, update_plug _ _ _ hnd]
  -- the clone is in a hole below the node, which is a container by now
  let f : Frame NodeData :=
    ⟨{ n.label with type := toContainerType direction, split := none }, [], []⟩
  have hn : n.addrs.Nodup := nodup_of_plug NodeData.addr ctx n hnd
  rw [addrs_eq_cons] at hn
  have hsub : ∀ a ∈ keysAll NodeData.addr n.children, a ∈ n.addrs := fun a ha => by
    rw [addrs_eq_cons]
    exact List.mem_cons_of_mem _ ha
  have hc' : c.addr ∉ n.addrs := fun h => hc (mem_addrs_plug ctx h)
  have hnd' : (addrs (plug (f :: ctx) (clone n c))).Nodup := by
    refine nodup_plug_of NodeData.addr ctx hnd ?_ ?_
    · change (n.label.addr :: keysAll NodeData.addr [clone n c]).Nodup
      rw [keysAll_cons, keysAll_nil, List.append_nil]
      change (n.label.addr :: (clone n c).addrs).Nodup
      rw [addrs_clone]
      refine List.nodup_cons.mpr ⟨?_, List.nodup_cons.mpr ⟨fun h => hc' (hsub _ h), hn.of_cons⟩⟩
      rw [List.mem_cons, not_or]
      refine ⟨?_, (List.nodup_cons.mp hn).1⟩
      rintro he
      exact hc' (he ▸ key_mem_keys NodeData.addr n)
    · intro a ha
      change a ∈ n.label.addr :: keysAll NodeData.addr [clone n c] at ha
      rw [keysAll_cons, keysAll_nil, List.append_nil] at ha
      change a ∈ n.label.addr :: (clone n c).addrs at ha
      rw [addrs_clone, List.mem_cons, List.mem_cons] at ha
      rcases ha with rfl | rfl | ha
      · exact .inl (key_mem_keys NodeData.addr n)
      · exact .inr hc
      · exact .inl (hsub a ha)
  have h := insertNextToThis_plug split direction b hnd' rfl
  rw [List.append_nil] at h
  exact h

/-- The type of the node around the hole. -/
def holderType (ctx : Ctx NodeData) : Option NodeType := ctx.head?.map fun f => f.label.type

section Relative

variable {ctx : Ctx NodeData} {n : Node} (split : Split) {direction : Direction} (c b : Block)

/-- Next to a child of a container of the direction's orientation. -/
theorem insertSplitRelative_beside {f : Frame NodeData} (h : Linked (plug (f :: ctx) n))
    (hf : f.label.type = toContainerType direction) :
    insertSplitRelative (plug (f :: ctx) n) n.label.addr split direction c b =
      some (plug ctx (.node f.label
        (f.left ++ (beside direction n (new b split (some f.label.addr)) ++ f.right)))) := by
  have hp : n.label.parent = some f.label.addr := h.parent
  have hget : get (plug (f :: ctx) n) f.label.addr
      = some (.node f.label (f.left ++ n :: f.right)) := get_plug ctx _ h.nodup
  simp only [insertSplitRelative, get_plug _ _ h.nodup, hp, hget, Option.bind_eq_bind,
    Option.bind_some, label_node]
  exact (if_pos hf).trans (insertNextToThis_plug split direction b h.nodup hp)

/-- Everywhere else, but on an empty root, a node is nested. -/
theorem insertSplitRelative_nest (h : Linked (plug ctx n))
    (hctx : holderType ctx ≠ some (toContainerType direction)) (ht : n.label.type ≠ .emptyRoot) :
    insertSplitRelative (plug ctx n) n.label.addr split direction c b =
      nestSplitIntoCollection (plug ctx n) n.label.addr split direction c b := by
  have hp := h.parent
  cases ctx with
  | nil =>
    simp only [insertSplitRelative, get_plug _ _ h.nodup, hp, holder, Option.bind_eq_bind,
      Option.bind_some]
    cases hn : n.label.type with
    | emptyRoot => exact absurd hn ht
    | split | verticalContainer | horizontalContainer => rfl
  | cons f ctx =>
    have hget : get (plug (f :: ctx) n) f.label.addr
        = some (.node f.label (f.left ++ n :: f.right)) := get_plug ctx _ h.nodup
    simp only [insertSplitRelative, get_plug _ _ h.nodup, hp, holder, hget, Option.bind_eq_bind,
      Option.bind_some, label_node]
    exact if_neg fun hf => hctx (congrArg some hf)

theorem insertSplitRelative_emptyRoot (h : Linked n) (ht : n.label.type = .emptyRoot) :
    insertSplitRelative n n.label.addr split direction c b = setSplit n split := by
  have hget : get n n.label.addr = some n := lookup_of_key NodeData.addr rfl
  have hp : n.label.parent = none := h.root_parent
  simp only [insertSplitRelative, hget, hp, ht, Option.bind_eq_bind, Option.bind_some]
  cases setSplit n split with
  | none => rfl
  | some n' => exact congrArg some (modify_of_key NodeData.addr _ rfl)

end Relative

/-! ### The new trees -/

theorem NodeOk.container_type {par : Option Addr} {d : NodeData} {k : Nat} (h : NodeOk par d k)
    (hk : 0 < k) : d.type = .verticalContainer ∨ d.type = .horizontalContainer := by
  cases ht : d.type with
  | emptyRoot => exact absurd (h.emptyRoot ht).2.1 (Nat.ne_of_gt hk)
  | split => exact absurd (h.split ht).1 (Nat.ne_of_gt hk)
  | verticalContainer => exact .inl rfl
  | horizontalContainer => exact .inr rfl

/-- A container may have any number of children from two on. -/
theorem NodeOk.children {par : Option Addr} {d : NodeData} {k k' : Nat} (h : NodeOk par d k)
    (hk : 0 < k) (hk' : 2 ≤ k') : NodeOk par d k' where
  parent := h.parent
  emptyRoot ht := absurd (h.emptyRoot ht).2.1 (Nat.ne_of_gt hk)
  split ht := absurd (h.split ht).1 (Nat.ne_of_gt hk)
  container ht := ⟨hk', (h.container ht).2⟩

/--
The addresses stay distinct when a node in the hole gets other children, if those of the children
are distinct and each is one of the old children's or new to the whole tree.
-/
theorem nodup_exchange_children {ctx : Ctx NodeData} {d d' : NodeData} {cs cs' : List Node}
    (h : (addrs (plug ctx (.node d cs))).Nodup) (hd : d'.addr = d.addr)
    (hnd : (keysAll NodeData.addr cs').Nodup)
    (hmem : ∀ a ∈ keysAll NodeData.addr cs',
      a ∈ keysAll NodeData.addr cs ∨ a ∉ addrs (plug ctx (.node d cs))) :
    (addrs (plug ctx (.node d' cs'))).Nodup := by
  have hself : d.addr ∉ keysAll NodeData.addr cs :=
    (List.nodup_cons.mp (nodup_of_plug NodeData.addr ctx _ h)).1
  refine nodup_plug_of NodeData.addr ctx h ?_ ?_
  · refine List.nodup_cons.mpr ⟨fun hin => ?_, hnd⟩
    rw [hd] at hin
    rcases hmem _ hin with hold | hnew
    · exact hself hold
    · exact hnew (mem_addrs_plug ctx (List.mem_cons_self ..))
  · intro a ha
    rcases List.mem_cons.mp ha with rfl | ha
    · rw [hd]
      exact .inl (List.mem_cons_self ..)
    · rcases hmem a ha with hold | hnew
      · exact .inl (List.mem_cons_of_mem _ hold)
      · exact .inr hnew

theorem nodup_insertChild {ctx : Ctx NodeData} {d : NodeData} {left right : List Node}
    {split : Split} {b : Block} {p : Option Addr}
    (h : (addrs (plug ctx (.node d (left ++ right)))).Nodup)
    (hb : b.addr ∉ addrs (plug ctx (.node d (left ++ right)))) :
    (addrs (plug ctx (.node d (left ++ new b split p :: right)))).Nodup := by
  have hb' : b.addr ∉ keysAll NodeData.addr (left ++ right) := fun hin =>
    hb (mem_addrs_plug ctx (List.mem_cons_of_mem _ hin))
  have hperm : (keysAll NodeData.addr (left ++ new b split p :: right)).Perm
      (b.addr :: keysAll NodeData.addr (left ++ right)) := by
    rw [keysAll_append, keysAll_append, keysAll_cons]
    exact List.perm_middle
  refine nodup_exchange_children h rfl ?_ ?_
  · have hnd := (List.nodup_cons.mp (nodup_of_plug NodeData.addr ctx _ h)).2
    exact hperm.nodup_iff.mpr (List.nodup_cons.mpr ⟨hb', hnd⟩)
  · intro a ha
    rcases List.mem_cons.mp (hperm.mem_iff.mp ha) with rfl | ha
    · exact .inr hb
    · exact .inl ha

/-- A new node among the children of a container. -/
theorem TreeOk.insertChild {ctx : Ctx NodeData} {d : NodeData} {left right : List Node}
    {split : Split} {b : Block} (h : TreeOk (plug ctx (.node d (left ++ right))))
    (hne : left ++ right ≠ []) (hb : b.addr ∉ addrs (plug ctx (.node d (left ++ right)))) :
    TreeOk (plug ctx (.node d (left ++ new b split (some d.addr) :: right))) := by
  obtain ⟨hd, hcs⟩ := (each_node ..).mp h.hole
  have hpos := List.length_pos_of_ne_nil hne
  refine h.exchange ((each_node ..).mpr ⟨hd.children hpos ?_, ?_⟩) (nodup_insertChild h.nodup hb)
  · simp only [List.length_append, List.length_cons] at hpos ⊢
    omega
  · intro m hm
    rcases List.mem_cons.mp (List.perm_middle.mem_iff.mp hm) with rfl | hm
    · exact new_ok b split d.addr
    · exact hcs m hm

theorem Linked.insertChild {ctx : Ctx NodeData} {d : NodeData} {left right : List Node}
    {split : Split} {b : Block} (h : Linked (plug ctx (.node d (left ++ right))))
    (ht : d.type ≠ .split) (hb : b.addr ∉ addrs (plug ctx (.node d (left ++ right)))) :
    Linked (plug ctx (.node d (left ++ new b split (some d.addr) :: right))) := by
  obtain ⟨hd, hcs⟩ := (each_node ..).mp h.hole
  refine h.exchange ((each_node ..).mpr ⟨⟨hd.parent, hd.emptyRoot, fun he => absurd he ht⟩, ?_⟩)
    (nodup_insertChild h.nodup hb)
  intro m hm
  rcases List.mem_cons.mp (List.perm_middle.mem_iff.mp hm) with rfl | hm
  · exact new_linked b split d.addr
  · exact hcs m hm

/-- The children of a container with a new one put on a side of a child. -/
theorem beside_eq (direction : Direction) (n new : Node) (left right : List Node) :
    ∃ l r, l ++ r = left ++ n :: right ∧
      left ++ (beside direction n new ++ right) = l ++ new :: r := by
  rw [beside]
  by_cases hd : direction = .right ∨ direction = .below
  · rw [if_pos hd]
    exact ⟨left ++ [n], right, by simp, by simp⟩
  · rw [if_neg hd]
    exact ⟨left, n :: right, by simp, by simp⟩

theorem clone_ok {q : Option Addr} {n : Node} (h : EachOk q n) (ht : n.label.type ≠ .emptyRoot)
    (c : Block) : EachOk (some n.label.addr) (clone n c) := by
  cases n with
  | node d cs =>
    rw [EachOk, each_node] at h
    rw [clone, EachOk, each_node, List.length_map]
    refine ⟨⟨rfl, fun he => absurd he ht, h.1.split, h.1.container⟩, ?_⟩
    intro m hm
    obtain ⟨m', hm', rfl⟩ := List.mem_map.mp hm
    exact setParent_ok c.addr (h.2 m' hm')

theorem clone_linked {q : Option Addr} {n : Node} (h : EachLinked q n)
    (ht : n.label.type ≠ .emptyRoot) (c : Block) :
    EachLinked (some n.label.addr) (clone n c) := by
  cases n with
  | node d cs =>
    obtain ⟨hd, hcs⟩ := (each_node ..).mp h
    rw [clone, EachLinked, each_node, List.length_map]
    refine ⟨⟨rfl, fun he => absurd he ht, hd.split⟩, ?_⟩
    intro m hm
    obtain ⟨m', hm', rfl⟩ := List.mem_map.mp hm
    exact setParent_linked c.addr (hcs m' hm')

theorem mem_beside {direction : Direction} {n m k : Node} (h : k ∈ beside direction n m) :
    k = n ∨ k = m := by
  rw [beside] at h
  split at h <;> simpa [or_comm] using h

theorem nodup_nested {ctx : Ctx NodeData} {n : Node} (split : Split) (direction : Direction)
    {c b : Block} (h : (addrs (plug ctx n)).Nodup) (hc : c.addr ∉ addrs (plug ctx n))
    (hb : b.addr ∉ addrs (plug ctx n)) (hne : c.addr ≠ b.addr) :
    (addrs (plug ctx (nested n split direction c b))).Nodup := by
  have hkeys : (keysAll NodeData.addr
      (beside direction (clone n c) (new b split (some n.label.addr)))).Perm
      (b.addr :: c.addr :: keysAll NodeData.addr n.children) := by
    rw [beside]
    split
    · rw [keysAll_cons, keysAll_cons, keysAll_nil]
      change (addrs (clone n c) ++ ([b.addr] ++ [])).Perm _
      rw [addrs_clone]
      exact List.perm_append_comm
    · rw [keysAll_cons, keysAll_cons, keysAll_nil, List.append_nil]
      change (b.addr :: addrs (clone n c)).Perm _
      rw [addrs_clone]
  have hsub : ∀ a ∈ keysAll NodeData.addr n.children, a ∈ addrs (plug ctx n) := fun a ha =>
    mem_addrs_plug ctx (by rw [addrs_eq_cons]; exact List.mem_cons_of_mem _ ha)
  have hnd := nodup_of_plug NodeData.addr ctx n h
  cases n with
  | node d cs =>
    refine nodup_exchange_children h rfl ?_ ?_
    · refine hkeys.nodup_iff.mpr ?_
      simp only [List.nodup_cons, List.mem_cons, not_or]
      exact ⟨⟨hne.symm, fun hin => hb (hsub _ hin)⟩, fun hin => hc (hsub _ hin),
        (List.nodup_cons.mp hnd).2⟩
    · intro a ha
      rcases List.mem_cons.mp (hkeys.mem_iff.mp ha) with rfl | ha
      · exact .inr hb
      · rcases List.mem_cons.mp ha with rfl | ha
        · exact .inr hc
        · exact .inl ha

/-- A node nested in a container of its own. -/
theorem TreeOk.nest {ctx : Ctx NodeData} {n : Node} (split : Split) (direction : Direction)
    {c b : Block} (h : TreeOk (plug ctx n)) (ht : n.label.type ≠ .emptyRoot)
    (hc : c.addr ∉ addrs (plug ctx n)) (hb : b.addr ∉ addrs (plug ctx n)) (hne : c.addr ≠ b.addr) :
    TreeOk (plug ctx (nested n split direction c b)) := by
  refine h.exchange ?_ (nodup_nested split direction h.nodup hc hb hne)
  rw [nested, EachOk, each_node]
  have hlen : (beside direction (clone n c) (new b split (some n.label.addr))).length = 2 := by
    rw [beside]
    split <;> rfl
  rw [hlen]
  refine ⟨⟨h.parent, ?_, ?_, fun _ => ⟨Nat.le_refl 2, rfl⟩⟩, ?_⟩
  · exact fun he => absurd he (toContainerType_ne direction).1
  · exact fun he => absurd he (toContainerType_ne direction).2
  · intro m hm
    rcases mem_beside hm with rfl | rfl
    · exact clone_ok h.hole ht c
    · exact new_ok b split _

theorem Linked.nest {ctx : Ctx NodeData} {n : Node} (split : Split) (direction : Direction)
    {c b : Block} (h : Linked (plug ctx n)) (ht : n.label.type ≠ .emptyRoot)
    (hc : c.addr ∉ addrs (plug ctx n)) (hb : b.addr ∉ addrs (plug ctx n)) (hne : c.addr ≠ b.addr) :
    Linked (plug ctx (nested n split direction c b)) := by
  refine h.exchange ?_ (nodup_nested split direction h.nodup hc hb hne)
  rw [nested, EachLinked, each_node]
  refine ⟨⟨h.parent, fun he => absurd he (toContainerType_ne direction).1,
    fun he => absurd he (toContainerType_ne direction).2⟩, ?_⟩
  intro m hm
  rcases mem_beside hm with rfl | rfl
  · exact clone_linked h.hole ht c
  · exact new_linked b split _

/-- An empty root that gets a split. -/
theorem setSplit_emptyRoot {n : Node} (h : TreeOk n) (ht : n.label.type = .emptyRoot)
    (split : Split) :
    setSplit n split = some (.node { n.label with split := some split, type := .split } []) ∧
      TreeOk (.node { n.label with split := some split, type := .split } []) := by
  have hn := h.each
  have hnd := h.nodup
  cases n with
  | node d cs =>
    rw [EachOk, each_node] at hn
    obtain ⟨-, hlen, hsplit⟩ := hn.1.emptyRoot ht
    obtain rfl : cs = [] := List.length_eq_zero_iff.mp hlen
    refine ⟨if_pos ⟨hsplit, rfl⟩, ?_, hnd⟩
    rw [EachOk, each_node]
    exact ⟨⟨hn.1.parent, nofun, fun _ => ⟨rfl, rfl⟩, by rintro (h | h) <;> cases h⟩, by simp⟩

/-! ## Releasing -/

theorem releaseSplit_root {n : Node} (ht : n.label.type = .split) (hp : n.label.parent = none) :
    releaseSplit n n.label.addr =
      some (.node { n.label with type := .emptyRoot, split := none } n.children,
        { relativeNode := none, direction := .right }) := by
  have hget : get n n.label.addr = some n := lookup_of_key NodeData.addr rfl
  simp only [releaseSplit, hget, ht, hp, Option.bind_eq_bind, Option.bind_some, ne_eq,
    not_true_eq_false, if_false]
  rw [update, modify_of_key NodeData.addr _ rfl, hp]

/-- The parent `d` of a released node, after it took over what the other child held. -/
def collapsed (d : NodeData) (sibling : Node) : Node :=
  .node { d with type := sibling.label.type, split := sibling.label.split }
    (sibling.children.map (setParent d.addr))

section Child

variable {ctx : Ctx NodeData} {f : Frame NodeData} {n : Node} (ht : n.label.type = .split)
  (hp : n.label.parent = some f.label.addr) (hnd : (addrs (plug (f :: ctx) n)).Nodup)
include ht hp hnd

/-- Releasing a node that has a parent only changes the parent. -/
theorem releaseSplit_child :
    releaseSplit (plug (f :: ctx) n) n.label.addr =
      if f.left.length + f.right.length = 1 then
        (f.left ++ f.right).head?.map fun sibling =>
          (plug ctx (collapsed f.label sibling),
            { relativeNode := some f.label.addr, direction := sideOf f.label.type f.left.isEmpty })
      else if f.right.isEmpty then
        f.left.getLast?.map fun back =>
          (plug ctx (.node f.label f.left),
            { relativeNode := some back.label.addr, direction := sideOf f.label.type false })
      else
        f.right.head?.map fun next =>
          (plug ctx (.node f.label (f.left ++ f.right)),
            { relativeNode := some next.label.addr, direction := sideOf f.label.type true }) := by
  have hget : get (plug (f :: ctx) n) f.label.addr
      = some (.node f.label (f.left ++ n :: f.right)) := get_plug ctx _ hnd
  have hupd := fun g => update_plug ctx (.node f.label (f.left ++ n :: f.right)) g hnd
  simp only [releaseSplit, get_plug _ _ hnd, ht, hp, hget, children_node,
    findIdx?_sibling (nodup_children hnd), Option.bind_eq_bind, Option.bind_some, ne_eq,
    not_true_eq_false, if_false, label_node, eraseIdx_length_append]
  have hlen : (f.left ++ n :: f.right).length = 2 ↔ f.left.length + f.right.length = 1 := by
    simp only [List.length_append, List.length_cons]
    omega
  by_cases h1 : f.left.length + f.right.length = 1
  · rw [if_pos h1, if_pos (hlen.mpr h1)]
    have hfirst : decide (f.left.length = 0) = f.left.isEmpty := by cases f.left <;> rfl
    cases (f.left ++ f.right).head? with
    | none => rfl
    | some sibling =>
      rw [hfirst]
      exact congrArg (fun t => some (t, _)) (hupd _)
  · rw [if_neg h1, if_neg (fun h => h1 (hlen.mp h))]
    have hlast := getLast?_sibling (nodup_children hnd)
    cases hr : f.right with
    | nil =>
      rw [if_pos (hr ▸ hlast.mpr hr), List.append_nil]
      cases f.left.getLast? with
      | none => rfl
      | some back => exact congrArg (fun t => some (t, _)) (hupd _)
    | cons next right =>
      rw [hr] at hlast
      rw [if_neg (fun h => nomatch hlast.mp h)]
      have hnext : (f.left ++ n :: next :: right)[f.left.length + 1]? = some next := by
        simp
      rw [hnext]
      exact congrArg (fun t => some (t, _)) (hupd _)

end Child

/-- What releasing a node of type `_Split` does, with the context it is in. -/
inductive Released : Ctx NodeData → Node → Node → Position → Prop
  | root (n : Node) :
    Released [] n (.node { n.label with type := .emptyRoot, split := none } n.children)
      { relativeNode := none, direction := .right }
  | first (ctx : Ctx NodeData) (d : NodeData) (n sibling : Node) :
    Released (⟨d, [], [sibling]⟩ :: ctx) n (plug ctx (collapsed d sibling))
      { relativeNode := some d.addr, direction := sideOf d.type true }
  | second (ctx : Ctx NodeData) (d : NodeData) (n sibling : Node) :
    Released (⟨d, [sibling], []⟩ :: ctx) n (plug ctx (collapsed d sibling))
      { relativeNode := some d.addr, direction := sideOf d.type false }
  | last (ctx : Ctx NodeData) (d : NodeData) (n back : Node) (left : List Node) (h : left ≠ []) :
    Released (⟨d, left ++ [back], []⟩ :: ctx) n (plug ctx (.node d (left ++ [back])))
      { relativeNode := some back.label.addr, direction := sideOf d.type false }
  | middle (ctx : Ctx NodeData) (d : NodeData) (n next : Node) (left right : List Node)
      (h : left ++ right ≠ []) :
    Released (⟨d, left, next :: right⟩ :: ctx) n (plug ctx (.node d (left ++ next :: right)))
      { relativeNode := some next.label.addr, direction := sideOf d.type true }

/-- Releasing is undefined when the node is the only child, and there is nothing else that goes
wrong. -/
theorem releaseSplit_cases {ctx : Ctx NodeData} {n : Node} (h : Linked (plug ctx n))
    (ht : n.label.type = .split) :
    (∃ d ctx', ctx = ⟨d, [], []⟩ :: ctx' ∧ releaseSplit (plug ctx n) n.label.addr = none) ∨
      ∃ root position, releaseSplit (plug ctx n) n.label.addr = some (root, position) ∧
        Released ctx n root position := by
  cases ctx with
  | nil => exact .inr ⟨_, _, releaseSplit_root ht h.root_parent, .root n⟩
  | cons f ctx =>
    have hrel := releaseSplit_child ht h.parent h.nodup
    obtain ⟨d, left, right⟩ := f
    cases right with
    | nil =>
      rcases List.eq_nil_or_concat' left with rfl | ⟨left, back, rfl⟩
      · exact .inl ⟨d, ctx, rfl, hrel⟩
      · cases left with
        | nil => exact .inr ⟨_, _, hrel, .second ctx d n back⟩
        | cons m left =>
          refine .inr ⟨_, _, hrel.trans ?_, .last ctx d n back (m :: left) nofun⟩
          rw [if_neg (by simp), if_pos List.isEmpty_nil, List.getLast?_concat]
          rfl
    | cons next right =>
      by_cases hone : left ++ right = []
      · obtain ⟨rfl, rfl⟩ := List.append_eq_nil_iff.mp hone
        exact .inr ⟨_, _, hrel, .first ctx d n next⟩
      · refine .inr ⟨_, _, hrel.trans ?_, .middle ctx d n next left right hone⟩
        have := List.length_pos_of_ne_nil hone
        rw [List.length_append] at this
        rw [if_neg (by simp only [List.length_cons]; omega), if_neg nofun]
        rfl

theorem releaseSplit_released {ctx : Ctx NodeData} {n : Node} (h : TreeOk (plug ctx n))
    (ht : n.label.type = .split) :
    ∃ root position, releaseSplit (plug ctx n) n.label.addr = some (root, position) ∧
      Released ctx n root position := by
  rcases releaseSplit_cases h.linked ht with ⟨d, ctx, rfl, -⟩ | hrel
  · -- the parent has another child, since containers have two
    have hok : TreeOk (plug ctx (.node d [n])) := h
    have hd := ((each_node ..).mp hok.hole).1
    exact absurd (hd.container (hd.container_type Nat.zero_lt_one)).1 (by simp)
  · exact hrel

/-! ### The new trees -/

theorem leafSplits_collapsed (d : NodeData) (sibling : Node) :
    (collapsed d sibling).leafSplits = sibling.leafSplits := by
  cases sibling with
  | node sd scs =>
    rw [collapsed, leafSplits_node, leafSplits_node]
    exact congrArg _ (forestSplits_setParent d.addr scs)

theorem nodup_collapsed {ctx : Ctx NodeData} {d : NodeData} {cs : List Node} {sibling : Node}
    (h : (addrs (plug ctx (.node d cs))).Nodup) (hs : sibling ∈ cs) :
    (addrs (plug ctx (collapsed d sibling))).Nodup := by
  obtain ⟨left, right, rfl⟩ := List.append_of_mem hs
  have hnd := (List.nodup_cons.mp (nodup_of_plug NodeData.addr ctx _ h)).2
  have hsub : (keysAll NodeData.addr sibling.children).Sublist
      (keysAll NodeData.addr (left ++ sibling :: right)) := by
    rw [keysAll_append, keysAll_cons]
    refine List.Sublist.trans ?_ (List.sublist_append_right ..)
    refine List.Sublist.trans ?_ (List.sublist_append_left ..)
    have hself := List.sublist_cons_self sibling.label.addr (keysAll NodeData.addr sibling.children)
    rwa [← addrs_eq_cons] at hself
  refine nodup_exchange_children h rfl ?_ ?_
  · rw [keysAll_setParent]
    exact hnd.sublist hsub
  · rw [keysAll_setParent]
    exact fun a ha => .inl (hsub.mem ha)

/-- A container that takes over what its other child held. -/
theorem TreeOk.collapse {ctx : Ctx NodeData} {d : NodeData} {cs : List Node} {sibling : Node}
    (h : TreeOk (plug ctx (.node d cs))) (hs : sibling ∈ cs) :
    TreeOk (plug ctx (collapsed d sibling)) := by
  obtain ⟨hd, hcs⟩ := (each_node ..).mp h.hole
  have hok := hcs sibling hs
  refine h.exchange ?_ (nodup_collapsed h.nodup hs)
  cases sibling with
  | node sd scs =>
    obtain ⟨hsd, hscs⟩ := (each_node ..).mp hok
    rw [collapsed, EachOk, each_node, List.length_map]
    refine ⟨⟨hd.parent, fun he => absurd (hsd.emptyRoot he).1 nofun, hsd.split, hsd.container⟩, ?_⟩
    intro m hm
    obtain ⟨m', hm', rfl⟩ := List.mem_map.mp hm
    exact setParent_ok d.addr (hscs m' hm')

theorem Linked.collapse {ctx : Ctx NodeData} {d : NodeData} {cs : List Node} {sibling : Node}
    (h : Linked (plug ctx (.node d cs))) (hs : sibling ∈ cs) :
    Linked (plug ctx (collapsed d sibling)) := by
  obtain ⟨hd, hcs⟩ := (each_node ..).mp h.hole
  have hok := hcs sibling hs
  refine h.exchange ?_ (nodup_collapsed h.nodup hs)
  cases sibling with
  | node sd scs =>
    obtain ⟨hsd, hscs⟩ := (each_node ..).mp hok
    rw [collapsed, EachLinked, each_node, List.length_map]
    refine ⟨⟨hd.parent, fun he => absurd (hsd.emptyRoot he) nofun, hsd.split⟩, ?_⟩
    intro m hm
    obtain ⟨m', hm', rfl⟩ := List.mem_map.mp hm
    exact setParent_linked d.addr (hscs m' hm')

theorem nodup_removeChild {ctx : Ctx NodeData} {d : NodeData} {left right : List Node} {n : Node}
    (h : (addrs (plug ctx (.node d (left ++ n :: right)))).Nodup) :
    (addrs (plug ctx (.node d (left ++ right)))).Nodup := by
  have hkeys : (keysAll NodeData.addr (left ++ right)).Sublist
      (keysAll NodeData.addr (left ++ n :: right)) := by
    rw [keysAll_append, keysAll_append, keysAll_cons]
    exact (List.sublist_append_right ..).append_left _
  have hnd := (List.nodup_cons.mp (nodup_of_plug NodeData.addr ctx _ h)).2
  exact nodup_exchange_children h rfl (hnd.sublist hkeys) (fun a ha => .inl (hkeys.mem ha))

/-- A container that loses one of three or more children. -/
theorem TreeOk.removeChild {ctx : Ctx NodeData} {d : NodeData} {left right : List Node} {n : Node}
    (h : TreeOk (plug ctx (.node d (left ++ n :: right)))) (hlen : 2 ≤ left.length + right.length) :
    TreeOk (plug ctx (.node d (left ++ right))) := by
  obtain ⟨hd, hcs⟩ := (each_node ..).mp h.hole
  refine h.exchange ((each_node ..).mpr ⟨hd.children ?_ ?_, fun m hm => ?_⟩)
    (nodup_removeChild h.nodup)
  · exact List.length_pos_of_ne_nil (by simp)
  · rwa [List.length_append]
  · exact hcs m (List.perm_middle.mem_iff.mpr (List.mem_cons_of_mem _ hm))

theorem Linked.removeChild {ctx : Ctx NodeData} {d : NodeData} {left right : List Node} {n : Node}
    (h : Linked (plug ctx (.node d (left ++ n :: right)))) :
    Linked (plug ctx (.node d (left ++ right))) := by
  obtain ⟨hd, hcs⟩ := (each_node ..).mp h.hole
  refine h.exchange ((each_node ..).mpr ⟨⟨hd.parent, hd.emptyRoot, fun he => ?_⟩, fun m hm => ?_⟩)
    (nodup_removeChild h.nodup)
  · have := hd.split he
    simp at this
  · exact hcs m (List.perm_middle.mem_iff.mpr (List.mem_cons_of_mem _ hm))

/-- A root whose split is released. -/
theorem TreeOk.releaseRoot {n : Node} (h : TreeOk n) (ht : n.label.type = .split) :
    TreeOk (.node { n.label with type := .emptyRoot, split := none } n.children) := by
  have hn := h.each
  have hnd := h.nodup
  cases n with
  | node d cs =>
    rw [EachOk, each_node] at hn
    obtain ⟨hlen, -⟩ := hn.1.split ht
    refine ⟨?_, hnd⟩
    rw [EachOk, each_node]
    exact ⟨⟨hn.1.parent, fun _ => ⟨rfl, hlen, rfl⟩, nofun, by rintro (h | h) <;> cases h⟩, hn.2⟩

theorem Linked.releaseRoot {n : Node} (h : Linked n) :
    Linked (.node { n.label with type := .emptyRoot, split := none } n.children) := by
  have hn := h.each
  have hnd := h.nodup
  cases n with
  | node d cs =>
    obtain ⟨hd, hcs⟩ := (each_node ..).mp hn
    exact ⟨(each_node ..).mpr ⟨⟨hd.parent, fun _ => rfl, nofun⟩, hcs⟩, hnd⟩

theorem Released.linked {ctx : Ctx NodeData} {n root : Node} {position : Position}
    (hr : Released ctx n root position) (h : Linked (plug ctx n)) : Linked root := by
  cases hr with
  | root => exact h.releaseRoot
  | first ctx d n sibling =>
    have h' : Linked (plug ctx (.node d [n, sibling])) := h
    exact h'.collapse (by simp)
  | second ctx d n sibling =>
    have h' : Linked (plug ctx (.node d [sibling, n])) := h
    exact h'.collapse (by simp)
  | last ctx d n back left =>
    have h' : Linked (plug ctx (.node d ((left ++ [back]) ++ [n]))) := h
    have hrest := h'.removeChild
    rwa [List.append_nil] at hrest
  | middle ctx d n next left right =>
    have h' : Linked (plug ctx (.node d (left ++ n :: next :: right))) := h
    exact h'.removeChild

theorem Released.treeOk {ctx : Ctx NodeData} {n root : Node} {position : Position}
    (hr : Released ctx n root position) (h : TreeOk (plug ctx n)) (ht : n.label.type = .split) :
    TreeOk root := by
  cases hr with
  | root => exact h.releaseRoot ht
  | first ctx d n sibling =>
    have h' : TreeOk (plug ctx (.node d [n, sibling])) := h
    exact h'.collapse (by simp)
  | second ctx d n sibling =>
    have h' : TreeOk (plug ctx (.node d [sibling, n])) := h
    exact h'.collapse (by simp)
  | last ctx d n back left hne =>
    have h' : TreeOk (plug ctx (.node d ((left ++ [back]) ++ [n]))) := h
    have hpos := List.length_pos_of_ne_nil hne
    have hrest := h'.removeChild (by simp; omega)
    rwa [List.append_nil] at hrest
  | middle ctx d n next left right hne =>
    have h' : TreeOk (plug ctx (.node d (left ++ n :: next :: right))) := h
    have hpos := List.length_pos_of_ne_nil hne
    rw [List.length_append] at hpos
    exact h'.removeChild (by rw [List.length_cons]; omega)

end Dankerino
