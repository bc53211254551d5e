import Mathlib.Data.List.Nodup
import Mathlib.Data.List.Flatten

/-!
# Labelled trees and their one-hole contexts

A tree whose nodes are found by a key of their label, as a tree of heap objects is reached
through pointers. An operation on the node with a given key becomes an equation about one
decomposition `plug ctx t`:

* `exists_plug` — a node that is found has a context
* `lookup_plug`, `modify_plug` — with distinct keys, looking up and modifying stay in the hole
* `each_plug` — a condition on every node splits into one on the context and one on the hole
-/

namespace Infra

universe u v

/-- A tree with a label at each node and any number of children. -/
inductive RoseTree (α : Type u) where
  | node (label : α) (children : List (RoseTree α))

namespace RoseTree

variable {α : Type u} {κ : Type v}

def label : RoseTree α → α
  | node l _ => l

def children : RoseTree α → List (RoseTree α)
  | node _ cs => cs

@[simp] theorem label_node (l : α) (cs : List (RoseTree α)) : (node l cs).label = l := rfl

@[simp] theorem children_node (l : α) (cs : List (RoseTree α)) : (node l cs).children = cs := rfl

theorem eta (t : RoseTree α) : node t.label t.children = t := by cases t; rfl

mutual

/-- The labels in depth-first order. -/
def labels : RoseTree α → List α
  | node l cs => l :: labelsAll cs

def labelsAll : List (RoseTree α) → List α
  | [] => []
  | t :: ts => labels t ++ labelsAll ts

end

@[simp] theorem labels_node (l : α) (cs : List (RoseTree α)) :
    labels (node l cs) = l :: labelsAll cs := rfl

@[simp] theorem labelsAll_nil : labelsAll ([] : List (RoseTree α)) = [] := rfl

@[simp] theorem labelsAll_cons (t : RoseTree α) (ts : List (RoseTree α)) :
    labelsAll (t :: ts) = labels t ++ labelsAll ts := rfl

@[simp] theorem labelsAll_append (ts us : List (RoseTree α)) :
    labelsAll (ts ++ us) = labelsAll ts ++ labelsAll us := by
  induction ts with
  | nil => rfl
  | cons t ts ih => simp [ih]

/-- Induction over a tree, with the hypothesis for every child. -/
theorem induct {P : RoseTree α → Prop}
    (node : ∀ l cs, (∀ c ∈ cs, P c) → P (.node l cs)) : ∀ t, P t := by
  intro t
  refine @RoseTree.rec α P (fun ts => ∀ c ∈ ts, P c) ?_ ?_ ?_ t
  · intro l cs ih
    exact node l cs ih
  · intro c hc
    cases hc
  · intro t ts ht hts c hc
    rcases List.mem_cons.mp hc with rfl | hc
    · exact ht
    · exact hts c hc

theorem label_mem_labels (t : RoseTree α) : t.label ∈ t.labels := by
  cases t
  exact List.mem_cons_self ..

theorem mem_labelsAll {l : α} {ts : List (RoseTree α)} :
    l ∈ labelsAll ts ↔ ∃ t ∈ ts, l ∈ labels t := by
  induction ts with
  | nil => simp
  | cons t ts ih => simp [ih]

/-! ## Changing the labels -/

section Map

universe w

variable {β : Type w}

mutual

/-- The tree with every label changed. -/
def map (f : α → β) : RoseTree α → RoseTree β
  | node l cs => node (f l) (mapAll f cs)

def mapAll (f : α → β) : List (RoseTree α) → List (RoseTree β)
  | [] => []
  | t :: ts => map f t :: mapAll f ts

end

theorem mapAll_eq (f : α → β) (ts : List (RoseTree α)) : mapAll f ts = ts.map (map f) := by
  induction ts with
  | nil => rfl
  | cons t ts ih => rw [mapAll, ih, List.map_cons]

@[simp] theorem map_node (f : α → β) (l : α) (cs : List (RoseTree α)) :
    map f (node l cs) = node (f l) (cs.map (map f)) := by
  rw [map, mapAll_eq]

theorem map_eq_map_iff {f g : α → β} (t : RoseTree α) :
    map f t = map g t ↔ ∀ l ∈ labels t, f l = g l := by
  induction t using induct with
  | node l cs ih =>
    rw [map_node, map_node, RoseTree.node.injEq, labels_node, List.forall_mem_cons,
      List.map_inj_left]
    refine and_congr_right fun _ => ?_
    constructor
    · intro h l' hl'
      obtain ⟨c, hc, hlc⟩ := mem_labelsAll.mp hl'
      exact (ih c hc).mp (h c hc) l' hlc
    · intro h c hc
      exact (ih c hc).mpr fun l' hl' => h l' (mem_labelsAll.mpr ⟨c, hc, hl'⟩)

end Map

/-! ## The keys -/

section Keys

variable (key : α → κ)

/-- The keys in depth-first order. -/
def keys (t : RoseTree α) : List κ := t.labels.map key

def keysAll (ts : List (RoseTree α)) : List κ := (labelsAll ts).map key

@[simp] theorem keys_node (l : α) (cs : List (RoseTree α)) :
    keys key (node l cs) = key l :: keysAll key cs := rfl

@[simp] theorem keysAll_nil : keysAll key ([] : List (RoseTree α)) = [] := rfl

@[simp] theorem keysAll_cons (t : RoseTree α) (ts : List (RoseTree α)) :
    keysAll key (t :: ts) = keys key t ++ keysAll key ts := by
  simp [keysAll, keys]

@[simp] theorem keysAll_append (ts us : List (RoseTree α)) :
    keysAll key (ts ++ us) = keysAll key ts ++ keysAll key us := by
  simp [keysAll]

theorem key_mem_keys (t : RoseTree α) : key t.label ∈ keys key t :=
  List.mem_map_of_mem (label_mem_labels t)

end Keys

/-! ## Finding and changing a node by its key -/

section Key

variable [DecidableEq κ] (key : α → κ)

mutual

/-- The first node, in depth-first order, whose label has the key. -/
def lookup (k : κ) : RoseTree α → Option (RoseTree α)
  | node l cs => if key l = k then some (node l cs) else lookupAll k cs

def lookupAll (k : κ) : List (RoseTree α) → Option (RoseTree α)
  | [] => none
  | t :: ts => (lookup k t).or (lookupAll k ts)

end

mutual

/-- `f` applied to the nodes whose label has the key; their descendants are left to `f`. -/
def modify (k : κ) (f : RoseTree α → RoseTree α) : RoseTree α → RoseTree α
  | node l cs => if key l = k then f (node l cs) else node l (modifyAll k f cs)

def modifyAll (k : κ) (f : RoseTree α → RoseTree α) : List (RoseTree α) → List (RoseTree α)
  | [] => []
  | t :: ts => modify k f t :: modifyAll k f ts

end

theorem lookup_of_key {k : κ} {t : RoseTree α} (h : key t.label = k) : lookup key k t = some t := by
  cases t
  exact if_pos h

theorem modify_of_key {k : κ} {t : RoseTree α} (f : RoseTree α → RoseTree α) (h : key t.label = k) :
    modify key k f t = f t := by
  cases t
  exact if_pos h

theorem lookupAll_append (k : κ) (ts us : List (RoseTree α)) :
    lookupAll key k (ts ++ us) = (lookupAll key k ts).or (lookupAll key k us) := by
  induction ts with
  | nil => rfl
  | cons t ts ih => simp [lookupAll, ih, Option.or_assoc]

theorem modifyAll_append (k : κ) (f : RoseTree α → RoseTree α) (ts us : List (RoseTree α)) :
    modifyAll key k f (ts ++ us) = modifyAll key k f ts ++ modifyAll key k f us := by
  induction ts with
  | nil => rfl
  | cons t ts ih => simp [modifyAll, ih]

theorem lookup_eq_none {k : κ} (t : RoseTree α) (h : k ∉ keys key t) : lookup key k t = none := by
  induction t using induct with
  | node l cs ih =>
    rw [keys_node, List.mem_cons, not_or] at h
    rw [lookup, if_neg (fun he => h.1 he.symm)]
    replace h := h.2
    induction cs with
    | nil => rfl
    | cons c cs ihs =>
      rw [keysAll_cons, List.mem_append, not_or] at h
      rw [lookupAll, ih c (List.mem_cons_self ..) h.1, Option.none_or]
      exact ihs (fun c' hc' => ih c' (List.mem_cons_of_mem _ hc')) h.2

theorem lookup_isSome {k : κ} (t : RoseTree α) (h : k ∈ keys key t) : (lookup key k t).isSome := by
  induction t using induct with
  | node l cs ih =>
    rw [lookup]
    split
    · rfl
    · next hne =>
      rw [keys_node, List.mem_cons] at h
      replace h := h.resolve_left (fun he => hne he.symm)
      induction cs with
      | nil => cases h
      | cons c cs ihs =>
        rw [keysAll_cons, List.mem_append] at h
        rw [lookupAll, Option.isSome_or, Bool.or_eq_true]
        rcases h with hc | hcs
        · exact .inl (ih c (List.mem_cons_self ..) hc)
        · exact .inr (ihs (fun c' hc' => ih c' (List.mem_cons_of_mem _ hc')) hcs)

theorem lookupAll_eq_none {k : κ} (ts : List (RoseTree α)) (h : k ∉ keysAll key ts) :
    lookupAll key k ts = none := by
  induction ts with
  | nil => rfl
  | cons t ts ih =>
    rw [keysAll_cons, List.mem_append, not_or] at h
    rw [lookupAll, lookup_eq_none key t h.1, Option.none_or, ih h.2]

theorem modify_of_not_mem {k : κ} (f : RoseTree α → RoseTree α) (t : RoseTree α) (h : k ∉ keys key t) :
    modify key k f t = t := by
  induction t using induct with
  | node l cs ih =>
    rw [keys_node, List.mem_cons, not_or] at h
    rw [modify, if_neg (fun he => h.1 he.symm)]
    replace h := h.2
    congr 1
    induction cs with
    | nil => rfl
    | cons c cs ihs =>
      rw [keysAll_cons, List.mem_append, not_or] at h
      rw [modifyAll, ih c (List.mem_cons_self ..) h.1,
        ihs (fun c' hc' => ih c' (List.mem_cons_of_mem _ hc')) h.2]

theorem modifyAll_of_not_mem {k : κ} (f : RoseTree α → RoseTree α) (ts : List (RoseTree α))
    (h : k ∉ keysAll key ts) : modifyAll key k f ts = ts := by
  induction ts with
  | nil => rfl
  | cons t ts ih =>
    rw [keysAll_cons, List.mem_append, not_or] at h
    rw [modifyAll, modify_of_not_mem key f t h.1, ih h.2]

end Key

/-! ## One-hole contexts -/

/-- A node with a hole in place of one child. -/
structure Frame (α : Type u) where
  label : α
  left : List (RoseTree α)
  right : List (RoseTree α)

/-- The way from a hole up to the root, the innermost node first. -/
abbrev Ctx (α : Type u) := List (Frame α)

/-- The tree with `t` in the hole. -/
def plug : Ctx α → RoseTree α → RoseTree α
  | [], t => t
  | f :: ctx, t => plug ctx (node f.label (f.left ++ t :: f.right))

@[simp] theorem plug_nil (t : RoseTree α) : plug [] t = t := rfl

@[simp] theorem plug_cons (f : Frame α) (ctx : Ctx α) (t : RoseTree α) :
    plug (f :: ctx) t = plug ctx (node f.label (f.left ++ t :: f.right)) := rfl

theorem plug_append (c₁ c₂ : Ctx α) (t : RoseTree α) : plug (c₁ ++ c₂) t = plug c₂ (plug c₁ t) := by
  induction c₁ generalizing t with
  | nil => rfl
  | cons f c₁ ih => exact ih _

/-- The labels before the hole in depth-first order. -/
def before : Ctx α → List α
  | [] => []
  | f :: ctx => before ctx ++ f.label :: labelsAll f.left

/-- The labels after the hole in depth-first order. -/
def after : Ctx α → List α
  | [] => []
  | f :: ctx => labelsAll f.right ++ after ctx

theorem labels_plug (ctx : Ctx α) (t : RoseTree α) :
    labels (plug ctx t) = before ctx ++ (labels t ++ after ctx) := by
  induction ctx generalizing t with
  | nil => simp [before, after]
  | cons f ctx ih => simp [ih, before, after]

theorem keys_plug (key : α → κ) (ctx : Ctx α) (t : RoseTree α) :
    keys key (plug ctx t) = (before ctx).map key ++ (keys key t ++ (after ctx).map key) := by
  simp [keys, labels_plug]

/-- The hole's part of the keys is distinct too. -/
theorem nodup_of_plug (key : α → κ) (ctx : Ctx α) (t : RoseTree α) (h : (keys key (plug ctx t)).Nodup) :
    (keys key t).Nodup := by
  rw [keys_plug] at h
  exact (List.nodup_append.mp (List.nodup_append.mp h).2.1).1

theorem exists_plug_of_mem {l : α} {t : RoseTree α} (h : l ∈ labels t) :
    ∃ ctx s, t = plug ctx s ∧ s.label = l := by
  induction t using induct with
  | node l' cs ih =>
    rw [labels_node, List.mem_cons] at h
    rcases h with rfl | h
    · exact ⟨[], node l cs, rfl, rfl⟩
    · obtain ⟨c, hc, hl⟩ := mem_labelsAll.mp h
      obtain ⟨ctx, s, rfl, hs⟩ := ih c hc hl
      obtain ⟨left, right, rfl⟩ := List.append_of_mem hc
      refine ⟨ctx ++ [⟨l', left, right⟩], s, ?_, hs⟩
      rw [plug_append]
      rfl

/--
Exchanging the tree in the hole. The keys stay distinct when the new tree's are, and when those
that the old tree in the hole had not are new to the whole tree.
-/
theorem nodup_plug_of (key : α → κ) (ctx : Ctx α) {t t' : RoseTree α}
    (h : (keys key (plug ctx t)).Nodup) (hnd : (keys key t').Nodup)
    (hmem : ∀ k ∈ keys key t', k ∈ keys key t ∨ k ∉ keys key (plug ctx t)) :
    (keys key (plug ctx t')).Nodup := by
  rw [keys_plug] at h hmem ⊢
  obtain ⟨hb, hta, hdisj⟩ := List.nodup_append.mp h
  obtain ⟨-, ha, hdisj'⟩ := List.nodup_append.mp hta
  refine List.nodup_append.mpr ⟨hb, List.nodup_append.mpr ⟨hnd, ha, ?_⟩, ?_⟩
  · intro k hk k' hk'
    rcases hmem k hk with hold | hnew
    · exact hdisj' k hold k' hk'
    · rintro rfl
      exact hnew (by simp [hk'])
  · intro k hk k' hk'
    rcases List.mem_append.mp hk' with hin | hafter
    · rcases hmem k' hin with hold | hnew
      · exact hdisj k hk k' (List.mem_append_left _ hold)
      · rintro rfl
        exact hnew (by simp [hk])
    · exact hdisj k hk k' (List.mem_append_right _ hafter)

theorem length_ctx_lt (ctx : Ctx α) (t : RoseTree α) : ctx.length < (labels (plug ctx t)).length := by
  have hbefore : ctx.length ≤ (before ctx).length := by
    clear t
    induction ctx with
    | nil => exact Nat.le_refl 0
    | cons f ctx ih =>
      simp only [before, List.length_append, List.length_cons]
      omega
  have ht : 0 < (labels t).length := List.length_pos_of_mem (label_mem_labels t)
  rw [labels_plug, List.length_append, List.length_append]
  omega

section Key

variable [DecidableEq κ] (key : α → κ)

/-- A node that is found has the key and a context. -/
theorem exists_plug {k : κ} {t s : RoseTree α} (h : lookup key k t = some s) :
    key s.label = k ∧ ∃ ctx, t = plug ctx s := by
  induction t using induct with
  | node l cs ih =>
    rw [lookup] at h
    split at h
    · next hk =>
      obtain rfl := Option.some.inj h
      exact ⟨hk, [], rfl⟩
    · -- the first child in which it is found carries the context
      suffices hs : key s.label = k ∧ ∃ c ∈ cs, ∃ ctx, c = plug ctx s by
        obtain ⟨hk, c, hc, ctx, rfl⟩ := hs
        obtain ⟨left, right, rfl⟩ := List.append_of_mem hc
        refine ⟨hk, ctx ++ [⟨l, left, right⟩], ?_⟩
        rw [plug_append]
        rfl
      clear * - h ih
      induction cs with
      | nil => cases h
      | cons c cs ihs =>
        rw [lookupAll] at h
        rcases Option.or_eq_some_iff.mp h with hc | ⟨-, hcs⟩
        · obtain ⟨hk, ctx, rfl⟩ := ih c (List.mem_cons_self ..) hc
          exact ⟨hk, _, List.mem_cons_self .., ctx, rfl⟩
        · obtain ⟨hk, c', hc', hctx⟩ :=
            ihs (fun c' hc' => ih c' (List.mem_cons_of_mem _ hc')) hcs
          exact ⟨hk, c', List.mem_cons_of_mem _ hc', hctx⟩

/-- What is found in the hole is what is found in the whole tree. -/
theorem lookup_plug_of_mem {k : κ} (ctx : Ctx α) (t : RoseTree α)
    (hnd : (keys key (plug ctx t)).Nodup) (hk : k ∈ keys key t) :
    lookup key k (plug ctx t) = lookup key k t := by
  induction ctx generalizing t with
  | nil => rfl
  | cons f ctx ih =>
    have hin : (keys key (node f.label (f.left ++ t :: f.right))).Nodup := nodup_of_plug key ctx _ hnd
    rw [plug_cons, ih _ hnd (by simp [hk])]
    simp only [keys_node, keysAll_append, keysAll_cons, List.nodup_cons, List.mem_append,
      not_or] at hin
    have hne : key f.label ≠ k := by
      rintro rfl
      exact hin.1.2.1 hk
    have hleft : k ∉ keysAll key f.left := fun hl =>
      (List.nodup_append.mp hin.2).2.2 k hl k (List.mem_append_left _ hk) rfl
    have hright : k ∉ keysAll key f.right := fun hr =>
      (List.nodup_append.mp (List.nodup_append.mp hin.2).2.1).2.2 k hk k hr rfl
    rw [lookup, if_neg hne, lookupAll_append, lookupAll_eq_none key _ hleft, Option.none_or,
      lookupAll, lookupAll_eq_none key _ hright, Option.or_none]

/-- What is found in the hole is found in the whole tree when nothing before the hole has the key. -/
theorem lookup_plug_of_before {k : κ} (ctx : Ctx α) {t s : RoseTree α} (h : lookup key k t = some s)
    (hbefore : k ∉ (before ctx).map key) : lookup key k (plug ctx t) = some s := by
  induction ctx generalizing t with
  | nil => exact h
  | cons f ctx ih =>
    simp only [before, List.map_append, List.map_cons, List.mem_append, List.mem_cons, not_or]
      at hbefore
    obtain ⟨hctx, hlabel, hleft⟩ := hbefore
    refine ih ?_ hctx
    rw [lookup, if_neg fun he => hlabel he.symm, lookupAll_append, lookupAll_eq_none key _ hleft,
      Option.none_or, lookupAll, h, Option.some_or]

theorem lookup_plug {k : κ} (ctx : Ctx α) (t : RoseTree α) (hnd : (keys key (plug ctx t)).Nodup)
    (hk : key t.label = k) : lookup key k (plug ctx t) = some t := by
  rw [lookup_plug_of_mem key ctx t hnd (hk ▸ key_mem_keys key t), lookup_of_key key hk]

/-- Changing the node in the hole leaves the context as it is. -/
theorem modify_plug {k : κ} (f : RoseTree α → RoseTree α) (ctx : Ctx α) (t : RoseTree α)
    (hnd : (keys key (plug ctx t)).Nodup) (hk : k ∈ keys key t) :
    modify key k f (plug ctx t) = plug ctx (modify key k f t) := by
  induction ctx generalizing t with
  | nil => rfl
  | cons g ctx ih =>
    have hin : (keys key (node g.label (g.left ++ t :: g.right))).Nodup := nodup_of_plug key ctx _ hnd
    rw [plug_cons, ih _ hnd (by simp [hk]), plug_cons]
    simp only [keys_node, keysAll_append, keysAll_cons, List.nodup_cons, List.mem_append,
      not_or] at hin
    have hne : key g.label ≠ k := by
      rintro rfl
      exact hin.1.2.1 hk
    have hleft : k ∉ keysAll key g.left := fun hl =>
      (List.nodup_append.mp hin.2).2.2 k hl k (List.mem_append_left _ hk) rfl
    have hright : k ∉ keysAll key g.right := fun hr =>
      (List.nodup_append.mp (List.nodup_append.mp hin.2).2.1).2.2 k hk k hr rfl
    rw [modify, if_neg hne, modifyAll_append, modifyAll_of_not_mem key f _ hleft, modifyAll,
      modifyAll_of_not_mem key f _ hright]

theorem modify_plug_self {k : κ} (f : RoseTree α → RoseTree α) (ctx : Ctx α) (t : RoseTree α)
    (hnd : (keys key (plug ctx t)).Nodup) (hk : key t.label = k) :
    modify key k f (plug ctx t) = plug ctx (f t) := by
  rw [modify_plug key f ctx t hnd (hk ▸ key_mem_keys key t), modify_of_key key f hk]

end Key

/-! ## A condition on every node -/

section Each

variable (key : α → κ) (P : Option κ → α → Nat → Prop)

mutual

/-- `P` holds at every node, of its parent's key, its label and how many children it has;
`par` is the key of the root's parent. -/
def Each (par : Option κ) : RoseTree α → Prop
  | node l cs => P par l cs.length ∧ EachAll (some (key l)) cs

def EachAll (par : Option κ) : List (RoseTree α) → Prop
  | [] => True
  | t :: ts => Each par t ∧ EachAll par ts

end

theorem eachAll_iff {par : Option κ} {ts : List (RoseTree α)} :
    EachAll key P par ts ↔ ∀ t ∈ ts, Each key P par t := by
  induction ts with
  | nil => simp [EachAll]
  | cons t ts ih => simp [EachAll, ih]

theorem each_node {par : Option κ} {l : α} {cs : List (RoseTree α)} :
    Each key P par (node l cs) ↔
      P par l cs.length ∧ ∀ c ∈ cs, Each key P (some (key l)) c := by
  rw [Each, eachAll_iff]

theorem Each.mono {Q : Option κ → α → Nat → Prop} (h : ∀ par l n, P par l n → Q par l n) {par : Option κ}
    {t : RoseTree α} (ht : Each key P par t) : Each key Q par t := by
  induction t using RoseTree.induct generalizing par with
  | node l cs ih =>
    obtain ⟨hl, hcs⟩ := (each_node ..).mp ht
    exact (each_node ..).mpr ⟨h _ _ _ hl, fun c hc => ih c hc (hcs c hc)⟩

/-- The key of the node around the hole. -/
def holder (par : Option κ) : Ctx α → Option κ
  | [] => par
  | f :: _ => some (key f.label)

/-- `P` holds at every node of the context. -/
def EachCtx (par : Option κ) : Ctx α → Prop
  | [] => True
  | f :: ctx => EachCtx par ctx ∧ P (holder key par ctx) f.label (f.left.length + 1 + f.right.length) ∧
      (∀ c ∈ f.left, Each key P (some (key f.label)) c) ∧
      ∀ c ∈ f.right, Each key P (some (key f.label)) c

theorem each_plug {par : Option κ} {ctx : Ctx α} {t : RoseTree α} :
    Each key P par (plug ctx t) ↔ EachCtx key P par ctx ∧ Each key P (holder key par ctx) t := by
  induction ctx generalizing t with
  | nil => simp [EachCtx, holder]
  | cons f ctx ih =>
    have hlen : (f.left ++ t :: f.right).length = f.left.length + 1 + f.right.length := by
      simp only [List.length_append, List.length_cons]
      omega
    rw [plug_cons, ih, each_node, hlen]
    simp only [List.mem_append, List.mem_cons, EachCtx, holder]
    constructor
    · rintro ⟨hctx, hP, hall⟩
      exact ⟨⟨hctx, hP, fun c hc => hall c (.inl hc), fun c hc => hall c (.inr (.inr hc))⟩,
        hall t (.inr (.inl rfl))⟩
    · rintro ⟨⟨hctx, hP, hleft, hright⟩, ht⟩
      refine ⟨hctx, hP, ?_⟩
      rintro c (hc | rfl | hc)
      · exact hleft c hc
      · exact ht
      · exact hright c hc

end Each

end RoseTree

end Infra
