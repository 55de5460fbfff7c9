import Mathlib.Data.List.Sigma
import TibiaServer.Enums
/-!
# Names by their first letters

`WildcardTreeNode` keeps a set of names as a tree of letters; a node with `breakpoint`
ends a name.  A removal takes out the letters that no other name needs, so every node
below the root is on the way to a name.
-/

namespace TibiaServer.Players

open ReturnValue

/-- A name has at least one letter: `insert` looks at the last one. -/
structure PlayerName where
  letters : List UInt8
  nonempty : letters ≠ []
  deriving DecidableEq

inductive WildcardTreeNode
  | node (children : List (Sigma fun _ : UInt8 => WildcardTreeNode)) (breakpoint : Bool)

namespace WildcardTreeNode

def children : WildcardTreeNode → List (Sigma fun _ : UInt8 => WildcardTreeNode)
  | node children _ => children

def breakpoint : WildcardTreeNode → Bool
  | node _ breakpoint => breakpoint

def setBreakpoint (breakpoint : Bool) : WildcardTreeNode → WildcardTreeNode
  | node children _ => node children breakpoint

def getChild (n : WildcardTreeNode) (ch : UInt8) : Option WildcardTreeNode :=
  n.children.dlookup ch

/-- A child is written through its pointer, or is a new one. -/
def setChild (n : WildcardTreeNode) (ch : UInt8) (child : WildcardTreeNode) : WildcardTreeNode :=
  node (n.children.kinsert ch child) n.breakpoint

def eraseChild (n : WildcardTreeNode) (ch : UInt8) : WildcardTreeNode :=
  node (n.children.kerase ch) n.breakpoint

def addChild (n : WildcardTreeNode) (ch : UInt8) (breakpoint : Bool) : WildcardTreeNode :=
  match n.getChild ch with
  | some child =>
    if breakpoint && !child.breakpoint then n.setChild ch (child.setBreakpoint true) else n
  | none => n.setChild ch (node [] breakpoint)

def insert : WildcardTreeNode → List UInt8 → WildcardTreeNode
  | n, [] => n
  | n, [ch] => n.addChild ch true
  | n, ch :: next :: str =>
    let n := n.addChild ch false
    match n.getChild ch with
    | some child => n.setChild ch (insert child (next :: str))
    | none => n

/-- Nothing needs the node any more. -/
def isBare (n : WildcardTreeNode) : Bool := n.children.isEmpty && !n.breakpoint

/-- The way down and, on the way back up, the nodes that are left bare; `none` where a
letter is missing. -/
def removeLoop : WildcardTreeNode → List UInt8 → Option WildcardTreeNode
  | n, [] => some (n.setBreakpoint false)
  | n, ch :: str =>
    match n.getChild ch with
    | none => none
    | some child =>
      (removeLoop child str).map fun child =>
        if child.isBare then n.eraseChild ch else n.setChild ch child

def remove (n : WildcardTreeNode) (str : List UInt8) : WildcardTreeNode :=
  (n.removeLoop str).getD n

/-- The first loop of `findOne`. -/
def walk : WildcardTreeNode → List UInt8 → Option WildcardTreeNode
  | n, [] => some n
  | n, ch :: query => (n.getChild ch).bind fun child => walk child query

/-- The second loop: on while there is one way only. -/
def descend : WildcardTreeNode → List UInt8 → ReturnValue × List UInt8
  | node [] _, result => (NOERROR, result)
  | node [⟨ch, child⟩] false, result => descend child (result ++ [ch])
  | node _ _, result => (NAMEISTOOAMBIGUOUS, result)

/-- `findOne` with what it leaves in `result`. -/
def findOne (n : WildcardTreeNode) (query result : List UInt8) : ReturnValue × List UInt8 :=
  match n.walk query with
  | none => (PLAYERWITHTHISNAMEISNOTONLINE, result)
  | some cur => cur.descend query

/-! ## Names in a tree -/

/-- The name ends at a breakpoint. -/
def Holds (n : WildcardTreeNode) (name : List UInt8) : Prop :=
  ∃ m, n.walk name = some m ∧ m.breakpoint = true

/-- No letter twice in one node, and no node that leads to no name. -/
structure Trimmed (n : WildcardTreeNode) : Prop where
  nodup : ∀ str m, n.walk str = some m → m.children.NodupKeys
  leads : ∀ str m, str ≠ [] → n.walk str = some m → ∃ name, m.Holds name

section Walk

variable {n child : WildcardTreeNode} {ch : UInt8} {str name : List UInt8}

@[simp] theorem walk_nil (n : WildcardTreeNode) : n.walk [] = some n := rfl

theorem walk_cons (n : WildcardTreeNode) (ch : UInt8) (str : List UInt8) :
    n.walk (ch :: str) = (n.getChild ch).bind fun child => child.walk str := rfl

theorem walk_append (n : WildcardTreeNode) (str query : List UInt8) :
    n.walk (str ++ query) = (n.walk str).bind fun m => m.walk query := by
  induction str generalizing n with
  | nil => rfl
  | cons ch str ih =>
    rw [List.cons_append, walk_cons, walk_cons]
    cases n.getChild ch with
    | none => rfl
    | some child => exact ih child

theorem holds_nil : n.Holds [] ↔ n.breakpoint = true := by
  simp [Holds]

theorem holds_cons :
    n.Holds (ch :: name) ↔ ∃ child, n.getChild ch = some child ∧ child.Holds name := by
  unfold Holds
  rw [walk_cons]
  cases n.getChild ch with
  | none => simp
  | some child => simp

theorem holds_append {m : WildcardTreeNode} (h : n.walk str = some m) :
    n.Holds (str ++ name) ↔ m.Holds name := by
  unfold Holds
  rw [walk_append, h, Option.bind_some]

theorem exists_walk_of_holds (h : n.Holds (str ++ name)) : ∃ m, n.walk str = some m := by
  obtain ⟨m, hm, -⟩ := h
  rw [walk_append] at hm
  obtain ⟨k, hk, -⟩ := Option.bind_eq_some_iff.mp hm
  exact ⟨k, hk⟩

namespace Trimmed

theorem of_children (hnodup : n.children.NodupKeys)
    (h : ∀ ch child, n.getChild ch = some child → child.Trimmed ∧ ∃ name, child.Holds name) :
    n.Trimmed := by
  constructor
  · intro str m hm
    cases str with
    | nil =>
      obtain rfl : n = m := Option.some.inj hm
      exact hnodup
    | cons ch str =>
      obtain ⟨child, hchild, hm⟩ := Option.bind_eq_some_iff.mp hm
      exact (h ch child hchild).1.nodup str m hm
  · intro str m hstr hm
    cases str with
    | nil => exact absurd rfl hstr
    | cons ch str =>
      obtain ⟨child, hchild, hm⟩ := Option.bind_eq_some_iff.mp hm
      obtain ⟨htrimmed, hleads⟩ := h ch child hchild
      by_cases hend : str = []
      · subst hend
        obtain rfl : child = m := Option.some.inj hm
        exact hleads
      · exact htrimmed.leads str m hend hm

theorem keys (h : n.Trimmed) : n.children.NodupKeys := h.nodup [] n rfl

theorem below (h : n.Trimmed) (hchild : n.getChild ch = some child) :
    child.Trimmed ∧ ∃ name, child.Holds name := by
  have hwalk : ∀ str, n.walk (ch :: str) = child.walk str := by
    intro str
    rw [walk_cons, hchild, Option.bind_some]
  refine ⟨⟨fun str m hm => ?_, fun str m _ hm => ?_⟩, ?_⟩
  · exact h.nodup (ch :: str) m ((hwalk str).trans hm)
  · exact h.leads (ch :: str) m (List.cons_ne_nil ch str) ((hwalk str).trans hm)
  · exact h.leads [ch] child (List.cons_ne_nil ch []) (hwalk [])

/-- What `walk` comes to below the root is trimmed and leads to a name. -/
theorem walked (h : n.Trimmed) {m : WildcardTreeNode} (hm : n.walk str = some m) : m.Trimmed := by
  constructor
  · intro query k hk
    apply h.nodup (str ++ query) k
    rw [walk_append, hm, Option.bind_some, hk]
  · intro query k hquery hk
    apply h.leads (str ++ query) k
    · exact fun hnil => hquery (List.append_eq_nil_iff.mp hnil).2
    · rw [walk_append, hm, Option.bind_some, hk]

theorem empty : (node [] false).Trimmed :=
  of_children List.nodupKeys_nil fun _ _ h => nomatch h

end Trimmed

end Walk

/-! ## Writes to one child -/

section Children

variable {n child : WildcardTreeNode} {ch c : UInt8} {name str : List UInt8}

@[simp] theorem breakpoint_setChild (n : WildcardTreeNode) (ch : UInt8) (child : WildcardTreeNode) :
    (n.setChild ch child).breakpoint = n.breakpoint := rfl

@[simp] theorem breakpoint_eraseChild (n : WildcardTreeNode) (ch : UInt8) :
    (n.eraseChild ch).breakpoint = n.breakpoint := rfl

theorem getChild_setChild (n : WildcardTreeNode) (ch c : UInt8) (child : WildcardTreeNode) :
    (n.setChild ch child).getChild c = if c = ch then some child else n.getChild c := by
  by_cases hc : c = ch
  · subst hc
    rw [if_pos rfl]
    exact List.dlookup_kinsert _
  · rw [if_neg hc]
    exact List.dlookup_kinsert_ne hc

theorem getChild_eraseChild (hnodup : n.children.NodupKeys) (ch c : UInt8) :
    (n.eraseChild ch).getChild c = if c = ch then none else n.getChild c := by
  by_cases hc : c = ch
  · subst hc
    rw [if_pos rfl]
    exact List.dlookup_kerase c hnodup
  · rw [if_neg hc]
    exact List.dlookup_kerase_ne hc

theorem holds_setChild : (n.setChild ch child).Holds name ↔
    if name.head? = some ch then child.Holds name.tail else n.Holds name := by
  cases name with
  | nil => simp [holds_nil]
  | cons c name =>
    rw [holds_cons, holds_cons]
    simp only [getChild_setChild, List.head?_cons, Option.some.injEq, List.tail_cons]
    by_cases hc : c = ch
    · simp [hc]
    · simp [hc]

theorem holds_eraseChild (hnodup : n.children.NodupKeys) : (n.eraseChild ch).Holds name ↔
    name.head? ≠ some ch ∧ n.Holds name := by
  cases name with
  | nil => simp [holds_nil]
  | cons c name =>
    rw [holds_cons, holds_cons]
    simp only [getChild_eraseChild hnodup, List.head?_cons, Option.some.injEq, ne_eq]
    by_cases hc : c = ch
    · simp [hc]
    · simp [hc]

theorem Trimmed.setChild (h : n.Trimmed) (hchild : child.Trimmed)
    (hleads : ∃ name, child.Holds name) : (n.setChild ch child).Trimmed := by
  have hkeys : (n.setChild ch child).children.NodupKeys := List.kinsert_nodupKeys ch child h.keys
  apply Trimmed.of_children hkeys
  intro c m hm
  rw [getChild_setChild] at hm
  split at hm
  · obtain rfl := Option.some.inj hm
    exact ⟨hchild, hleads⟩
  · exact h.below hm

theorem Trimmed.eraseChild (h : n.Trimmed) (ch : UInt8) : (n.eraseChild ch).Trimmed := by
  have hkeys : (n.eraseChild ch).children.NodupKeys := h.keys.kerase ch
  apply Trimmed.of_children hkeys
  intro c m hm
  rw [getChild_eraseChild h.keys] at hm
  split at hm
  · exact nomatch hm
  · exact h.below hm

theorem getChild_setBreakpoint (n : WildcardTreeNode) (breakpoint : Bool) (c : UInt8) :
    (n.setBreakpoint breakpoint).getChild c = n.getChild c := by
  cases n
  rfl

theorem holds_setBreakpoint (n : WildcardTreeNode) (breakpoint : Bool) :
    (n.setBreakpoint breakpoint).Holds name ↔
      if name = [] then breakpoint = true else n.Holds name := by
  cases name with
  | nil =>
    cases n
    simp [holds_nil, setBreakpoint, WildcardTreeNode.breakpoint]
  | cons c name => simp [holds_cons, getChild_setBreakpoint]

theorem Trimmed.setBreakpoint (h : n.Trimmed) (breakpoint : Bool) :
    (n.setBreakpoint breakpoint).Trimmed := by
  apply Trimmed.of_children
  · have hkeys := h.keys
    cases n
    exact hkeys
  · intro c m hm
    rw [getChild_setBreakpoint] at hm
    exact h.below hm

/-- A bare node holds nothing, and a trimmed one that holds nothing is bare. -/
theorem isBare_iff (h : n.Trimmed) : n.isBare = true ↔ ¬∃ name, n.Holds name := by
  obtain ⟨children, breakpoint⟩ := n
  constructor
  · intro hbare hname
    obtain ⟨name, hname⟩ := hname
    obtain ⟨hchildren, hbreakpoint⟩ := Bool.and_eq_true_iff.mp hbare
    obtain rfl := List.isEmpty_iff.mp hchildren
    cases name with
    | nil =>
      rw [holds_nil] at hname
      rw [hname] at hbreakpoint
      exact nomatch hbreakpoint
    | cons c name =>
      obtain ⟨child, hchild, -⟩ := holds_cons.mp hname
      exact nomatch hchild
  · intro hnone
    have hbreakpoint : breakpoint = false := by
      apply Bool.eq_false_iff.mpr
      exact fun hend => hnone ⟨[], holds_nil.mpr hend⟩
    cases children with
    | nil => simp [isBare, WildcardTreeNode.children, WildcardTreeNode.breakpoint, hbreakpoint]
    | cons entry rest =>
      obtain ⟨c, child⟩ := entry
      have hchild : getChild (node (⟨c, child⟩ :: rest) breakpoint) c = some child :=
        List.dlookup_cons_eq rest c child
      obtain ⟨-, name, hname⟩ := h.below hchild
      exact absurd ⟨c :: name, holds_cons.mpr ⟨child, hchild, hname⟩⟩ hnone

end Children

/-! ## What the operations do -/

section Operations

variable {n : WildcardTreeNode} {name str : List UInt8}

/-- The child of a letter, or the one that `addChild` makes. -/
def childOrNew (n : WildcardTreeNode) (ch : UInt8) : WildcardTreeNode :=
  (n.getChild ch).getD (node [] false)

theorem childOrNew_trimmed (h : n.Trimmed) (ch : UInt8) : (n.childOrNew ch).Trimmed := by
  unfold childOrNew
  cases hchild : n.getChild ch with
  | some child => exact (h.below hchild).1
  | none => exact Trimmed.empty

theorem holds_childOrNew (n : WildcardTreeNode) (ch : UInt8) :
    (n.childOrNew ch).Holds name ↔ n.Holds (ch :: name) := by
  unfold childOrNew
  rw [holds_cons]
  cases n.getChild ch with
  | some child => simp
  | none =>
    simp only [Option.getD_none, reduceCtorEq, false_and, exists_false, iff_false]
    intro hname
    have hbare : (node [] false).isBare = true := rfl
    exact (isBare_iff Trimmed.empty).mp hbare ⟨name, hname⟩

theorem children_addChild (h : n.children.NodupKeys) (ch : UInt8) (breakpoint : Bool) :
    (n.addChild ch breakpoint).children.NodupKeys := by
  unfold addChild
  split
  · split
    · exact List.kinsert_nodupKeys ch _ h
    · exact h
  · exact List.kinsert_nodupKeys ch _ h

theorem getChild_addChild (n : WildcardTreeNode) (ch c : UInt8) (breakpoint : Bool) :
    (n.addChild ch breakpoint).getChild c =
      if c = ch then
        some ((n.childOrNew ch).setBreakpoint ((n.childOrNew ch).breakpoint || breakpoint))
      else n.getChild c := by
  have hsame : ∀ m : WildcardTreeNode, m.setBreakpoint m.breakpoint = m := by
    intro m
    cases m
    rfl
  unfold addChild childOrNew
  by_cases hc : c = ch
  · subst hc
    rw [if_pos rfl]
    cases hchild : n.getChild c with
    | none => simp [getChild_setChild, setBreakpoint, WildcardTreeNode.breakpoint]
    | some child =>
      cases hbreakpoint : child.breakpoint with
      | true =>
        have hkeep := hsame child
        rw [hbreakpoint] at hkeep
        simp [hchild, hbreakpoint, hkeep]
      | false =>
        cases breakpoint with
        | true => simp [hbreakpoint, getChild_setChild]
        | false =>
          have hkeep := hsame child
          rw [hbreakpoint] at hkeep
          simp [hchild, hbreakpoint, hkeep]
  · rw [if_neg hc]
    cases n.getChild ch with
    | none => simp [getChild_setChild, hc]
    | some child =>
      simp only
      split
      · rw [getChild_setChild, if_neg hc]
      · rfl

theorem breakpoint_addChild (n : WildcardTreeNode) (ch : UInt8) (breakpoint : Bool) :
    (n.addChild ch breakpoint).breakpoint = n.breakpoint := by
  unfold addChild
  split
  · split <;> rfl
  · rfl

/-- One child of the node comes to hold one name more. -/
theorem grow {m child : WildcardTreeNode} {ch : UInt8} (h : n.Trimmed)
    (hkeys : m.children.NodupKeys) (hbreakpoint : m.breakpoint = n.breakpoint)
    (hget : ∀ c, m.getChild c = if c = ch then some child else n.getChild c)
    (hchild : child.Trimmed)
    (hholds : ∀ name, child.Holds name ↔ name = str ∨ n.Holds (ch :: name)) :
    m.Trimmed ∧ ∀ name, m.Holds name ↔ name = ch :: str ∨ n.Holds name := by
  constructor
  · apply Trimmed.of_children hkeys
    intro c k hk
    rw [hget] at hk
    split at hk
    · obtain rfl := Option.some.inj hk
      exact ⟨hchild, str, (hholds str).mpr (.inl rfl)⟩
    · exact h.below hk
  · intro name
    cases name with
    | nil => simp [holds_nil, hbreakpoint]
    | cons c name =>
      rw [holds_cons, hget]
      by_cases hc : c = ch
      · subst hc
        simp [hholds]
      · rw [if_neg hc, holds_cons]
        simp [hc]

theorem insert_spec (h : n.Trimmed) (hstr : str ≠ []) :
    (n.insert str).Trimmed ∧ ∀ name, (n.insert str).Holds name ↔ name = str ∨ n.Holds name := by
  induction str generalizing n with
  | nil => exact absurd rfl hstr
  | cons ch str ih =>
    have hnew := childOrNew_trimmed h ch
    cases str with
    | nil =>
      apply grow h (children_addChild h.keys ch true) (breakpoint_addChild n ch true)
        (fun c => getChild_addChild n ch c true)
      · exact hnew.setBreakpoint _
      · intro name
        rw [holds_setBreakpoint, holds_childOrNew]
        by_cases hname : name = []
        · simp [hname]
        · simp [hname]
    | cons next str =>
      obtain ⟨htrimmed, hholds⟩ := ih hnew (List.cons_ne_nil next str)
      have hget : (n.addChild ch false).getChild ch = some (n.childOrNew ch) := by
        rw [getChild_addChild, if_pos rfl]
        generalize n.childOrNew ch = m
        cases m
        simp [setBreakpoint, WildcardTreeNode.breakpoint]
      have hadded : ∀ c, ((n.addChild ch false).setChild ch
          ((n.childOrNew ch).insert (next :: str))).getChild c =
            if c = ch then some ((n.childOrNew ch).insert (next :: str)) else n.getChild c := by
        intro c
        rw [getChild_setChild, getChild_addChild]
        split <;> rfl
      rw [insert]
      simp only [hget]
      apply grow h _ _ hadded htrimmed
      · intro name
        rw [hholds, holds_childOrNew]
      · exact List.kinsert_nodupKeys ch _ (children_addChild h.keys ch false)
      · exact breakpoint_addChild n ch false

theorem removeLoop_spec (str : List UInt8) (h : n.Trimmed) :
    match n.removeLoop str with
    | none => ¬n.Holds str
    | some m => m.Trimmed ∧ ∀ name, m.Holds name ↔ name ≠ str ∧ n.Holds name := by
  induction str generalizing n with
  | nil =>
    refine ⟨h.setBreakpoint false, fun name => ?_⟩
    rw [holds_setBreakpoint]
    by_cases hname : name = []
    · simp [hname]
    · simp [hname]
  | cons ch str ih =>
    rw [removeLoop]
    cases hchild : n.getChild ch with
    | none =>
      rw [holds_cons, hchild]
      simp
    | some child =>
      obtain ⟨htrimmed, -⟩ := h.below hchild
      have hstep := ih htrimmed
      simp only
      cases hloop : child.removeLoop str with
      | none =>
        rw [hloop] at hstep
        rw [Option.map_none, holds_cons, hchild]
        simpa using hstep
      | some m =>
        rw [hloop] at hstep
        obtain ⟨hm, hholds⟩ := hstep
        rw [Option.map_some]
        simp only
        have hbelow : ∀ name, m.Holds name ↔
            ch :: name ≠ ch :: str ∧ n.Holds (ch :: name) := by
          intro name
          rw [hholds, holds_cons, hchild]
          simp
        split
        next hbare =>
          have hnone := (isBare_iff hm).mp hbare
          refine ⟨h.eraseChild ch, fun name => ?_⟩
          rw [holds_eraseChild h.keys]
          constructor
          · rintro ⟨hother, hname⟩
            exact ⟨fun heq => hother (by rw [heq, List.head?_cons]), hname⟩
          · rintro ⟨hne, hname⟩
            refine ⟨fun hhead => ?_, hname⟩
            obtain ⟨rest, rfl⟩ := List.head?_eq_some_iff.mp hhead
            exact hnone ⟨rest, (hbelow rest).mpr ⟨hne, hname⟩⟩
        next hbare =>
          have hsome := not_not.mp (mt (isBare_iff hm).mpr hbare)
          refine ⟨h.setChild hm hsome, fun name => ?_⟩
          rw [holds_setChild]
          split
          next hhead =>
            obtain ⟨rest, rfl⟩ := List.head?_eq_some_iff.mp hhead
            exact hbelow rest
          next hother =>
            have hne : name ≠ ch :: str := by
              rintro rfl
              exact hother rfl
            exact (and_iff_right hne).symm

theorem remove_spec (h : n.Trimmed) (str : List UInt8) :
    (n.remove str).Trimmed ∧ ∀ name, (n.remove str).Holds name ↔ name ≠ str ∧ n.Holds name := by
  have hloop := removeLoop_spec str h
  unfold remove
  cases hcase : n.removeLoop str with
  | none =>
    rw [hcase] at hloop
    refine ⟨h, fun name => ?_⟩
    exact ⟨fun hname => ⟨fun heq => hloop (heq ▸ hname), hname⟩, And.right⟩
  | some m =>
    rw [hcase] at hloop
    exact hloop

/-- A letter of a trimmed node begins a name. -/
theorem exists_holds_cons (h : n.Trimmed) (ch : UInt8) (child : WildcardTreeNode)
    (hmem : ⟨ch, child⟩ ∈ n.children) : ∃ name, n.Holds (ch :: name) := by
  have hchild : n.getChild ch = some child := List.mem_dlookup h.keys hmem
  obtain ⟨-, name, hname⟩ := h.below hchild
  exact ⟨name, holds_cons.mpr ⟨child, hchild, hname⟩⟩

/-- The way down from a node ends at its only name, or where there are two. -/
theorem descend_spec (h : n.Trimmed) (hleads : ∃ name, n.Holds name) (result : List UInt8) :
    (∃ name, n.descend result = (NOERROR, result ++ name) ∧ ∀ other, n.Holds other ↔ other = name) ∨
    ((n.descend result).1 = NAMEISTOOAMBIGUOUS ∧
      ∃ name other, name ≠ other ∧ n.Holds name ∧ n.Holds other) := by
  induction n, result using descend.induct with
  | case1 breakpoint result =>
    left
    have hnil : ∀ other, (node [] breakpoint).Holds other → other = [] := by
      intro other hother
      cases other with
      | nil => rfl
      | cons c rest =>
        obtain ⟨child, hchild, -⟩ := holds_cons.mp hother
        exact nomatch hchild
    refine ⟨[], by rw [descend, List.append_nil], fun other => ⟨hnil other, ?_⟩⟩
    rintro rfl
    obtain ⟨name, hname⟩ := hleads
    exact hnil name hname ▸ hname
  | case2 ch child result ih =>
    have hchild : (node [⟨ch, child⟩] false).getChild ch = some child := by
      simp [getChild, children]
    have hholds : ∀ name, (node [⟨ch, child⟩] false).Holds name ↔
        ∃ rest, name = ch :: rest ∧ child.Holds rest := by
      intro name
      cases name with
      | nil => simp [holds_nil, WildcardTreeNode.breakpoint]
      | cons c rest =>
        by_cases hc : c = ch
        · subst hc
          rw [holds_cons, hchild]
          simp
        · have hnone : (node [⟨ch, child⟩] false).getChild c = none :=
            List.dlookup_cons_ne [] _ hc
          rw [holds_cons, hnone]
          simp [hc]
    obtain ⟨htrimmed, hbelow⟩ := h.below hchild
    rw [descend]
    rcases ih htrimmed hbelow with
      ⟨name, hdescend, honly⟩ | ⟨hret, name, other, hne, hname, hother⟩
    · left
      refine ⟨ch :: name, ?_, fun other => ?_⟩
      · rw [hdescend, List.append_assoc, List.singleton_append]
      · rw [hholds]
        simp [honly]
    · right
      refine ⟨hret, ch :: name, ch :: other, ?_, ?_, ?_⟩
      · exact fun heq => hne (List.cons.inj heq).2
      · exact (hholds _).mpr ⟨name, rfl, hname⟩
      · exact (hholds _).mpr ⟨other, rfl, hother⟩
  | case3 children breakpoint result hnotNil hnotOne =>
    right
    constructor
    · rw [descend]
      · exact hnotNil
      · exact hnotOne
    cases children with
    | nil => exact absurd rfl hnotNil
    | cons entry rest =>
      obtain ⟨ch, child⟩ := entry
      obtain ⟨name, hname⟩ := exists_holds_cons h ch child List.mem_cons_self
      cases rest with
      | nil =>
        have hend : breakpoint = true := by
          by_contra hno
          exact hnotOne ch child rfl (by simpa using hno)
        exact ⟨[], ch :: name, (List.cons_ne_nil ch name).symm, holds_nil.mpr hend, hname⟩
      | cons entry rest =>
        obtain ⟨c, second⟩ := entry
        obtain ⟨other, hother⟩ := exists_holds_cons h c second
          (List.mem_cons_of_mem _ List.mem_cons_self)
        have hkeys : (⟨ch, child⟩ :: ⟨c, second⟩ :: rest :
            List (Sigma fun _ : UInt8 => WildcardTreeNode)).NodupKeys := h.keys
        refine ⟨ch :: name, c :: other, fun heq => ?_, hname, hother⟩
        apply (List.nodupKeys_cons.mp hkeys).1
        rw [(List.cons.inj heq).1]
        exact List.mem_cons_self

/-! ## The answer to a query -/

/-- How a query is answered, by the names that begin with it. -/
theorem findOne_spec (h : n.Trimmed) {query : List UInt8} (hquery : query ≠ [])
    (result : List UInt8) :
    (∀ name, (∀ other, n.Holds other ∧ query <+: other ↔ other = name) →
      n.findOne query result = (NOERROR, name)) ∧
    ((∃ name other, name ≠ other ∧ (n.Holds name ∧ query <+: name) ∧
      n.Holds other ∧ query <+: other) → (n.findOne query result).1 = NAMEISTOOAMBIGUOUS) ∧
    ((∀ name, n.Holds name → ¬query <+: name) →
      (n.findOne query result).1 = PLAYERWITHTHISNAMEISNOTONLINE) := by
  unfold findOne
  cases hwalk : n.walk query with
  | none =>
    have hnone : ∀ name, n.Holds name → ¬query <+: name := by
      rintro _ hname ⟨rest, rfl⟩
      obtain ⟨m, hm⟩ := exists_walk_of_holds hname
      rw [hwalk] at hm
      exact nomatch hm
    refine ⟨fun name honly => ?_, ?_, fun _ => rfl⟩
    · obtain ⟨hname, hbegins⟩ := (honly name).mpr rfl
      exact absurd hbegins (hnone name hname)
    · rintro ⟨name, -, -, ⟨hname, hbegins⟩, -⟩
      exact absurd hbegins (hnone name hname)
  | some m =>
    have hholds : ∀ rest, n.Holds (query ++ rest) ↔ m.Holds rest := fun rest => holds_append hwalk
    have hleads := h.leads query m hquery hwalk
    simp only
    rcases descend_spec (h.walked hwalk) hleads query with
      ⟨last, hdescend, honly⟩ | ⟨hret, first, second, hne, hfirst, hsecond⟩
    · have hunique : ∀ name, n.Holds name → query <+: name → name = query ++ last := by
        rintro _ hname ⟨rest, rfl⟩
        rw [(honly rest).mp ((hholds rest).mp hname)]
      rw [hdescend]
      refine ⟨fun name hname => ?_, ?_, fun hnone => ?_⟩
      · obtain ⟨hheld, hbegins⟩ := (hname name).mpr rfl
        rw [hunique name hheld hbegins]
      · rintro ⟨name, other, hne, ⟨hname, hbegins⟩, hother, hbegins'⟩
        exact absurd ((hunique name hname hbegins).trans (hunique other hother hbegins').symm) hne
      · have hheld := (hholds last).mpr ((honly last).mpr rfl)
        exact absurd (List.prefix_append query last) (hnone _ hheld)
    · have hboth : ∀ rest, m.Holds rest → n.Holds (query ++ rest) ∧ query <+: query ++ rest :=
        fun rest hrest => ⟨(hholds rest).mpr hrest, List.prefix_append query rest⟩
      refine ⟨fun name hname => ?_, fun _ => hret, fun hnone => ?_⟩
      · have hfirst' := (hname _).mp (hboth first hfirst)
        have hsecond' := (hname _).mp (hboth second hsecond)
        exact absurd (List.append_cancel_left (hfirst'.trans hsecond'.symm)) hne
      · obtain ⟨hheld, hbegins⟩ := hboth first hfirst
        exact absurd hbegins (hnone _ hheld)

end Operations

/-! ## Logins and logouts -/

/-- What `Game::addPlayer` and `Game::removePlayer` do to the tree. -/
inductive NameCall
  | insert (name : PlayerName)
  | remove (name : PlayerName)

def NameCall.apply (n : WildcardTreeNode) : NameCall → WildcardTreeNode
  | .insert name => n.insert name.letters
  | .remove name => n.remove name.letters

/-- The names that are stored after a call. -/
def NameCall.store (names : Set (List UInt8)) : NameCall → Set (List UInt8)
  | .insert name => {other | other = name.letters ∨ other ∈ names}
  | .remove name => {other | other ≠ name.letters ∧ other ∈ names}

def tree (calls : List NameCall) : WildcardTreeNode := calls.foldl NameCall.apply (node [] false)

def stored (calls : List NameCall) : Set (List UInt8) := calls.foldl NameCall.store ∅

example : (tree [.insert ⟨[1, 2], nofun⟩, .insert ⟨[1, 2, 3], nofun⟩,
    .remove ⟨[1, 2], nofun⟩]).findOne [1] [] = (NOERROR, [1, 2, 3]) := by decide

/-- The tree holds the names that are stored. -/
structure Keeps (n : WildcardTreeNode) (names : Set (List UInt8)) : Prop where
  trimmed : n.Trimmed
  holds : ∀ name, n.Holds name ↔ name ∈ names

theorem Keeps.apply {n : WildcardTreeNode} {names : Set (List UInt8)} (h : Keeps n names)
    (call : NameCall) : Keeps (call.apply n) (call.store names) := by
  cases call with
  | insert name =>
    obtain ⟨htrimmed, hholds⟩ := insert_spec h.trimmed name.nonempty
    refine ⟨htrimmed, fun other => ?_⟩
    rw [NameCall.apply, hholds, h.holds]
    rfl
  | remove name =>
    obtain ⟨htrimmed, hholds⟩ := remove_spec h.trimmed name.letters
    refine ⟨htrimmed, fun other => ?_⟩
    rw [NameCall.apply, hholds, h.holds]
    rfl

theorem keeps_foldl (calls : List NameCall) {n : WildcardTreeNode} {names : Set (List UInt8)}
    (h : Keeps n names) :
    Keeps (calls.foldl NameCall.apply n) (calls.foldl NameCall.store names) := by
  induction calls generalizing n names with
  | nil => exact h
  | cons call calls ih => exact ih (h.apply call)

theorem keeps_tree (calls : List NameCall) : Keeps (tree calls) (stored calls) := by
  apply keeps_foldl
  refine ⟨Trimmed.empty, fun name => ?_⟩
  have hnone := (isBare_iff Trimmed.empty).mp (rfl : (node [] false).isBare = true)
  exact iff_of_false (fun hname => hnone ⟨name, hname⟩) fun hmem => hmem

/-- After any logins and logouts a query finds the name that begins with it if there is
one, is too ambiguous if there are two, and finds nobody if there is none. -/
theorem findOne_answers (calls : List NameCall) (query : PlayerName) (result : List UInt8) :
    (∀ name, (∀ other, other ∈ stored calls ∧ query.letters <+: other ↔ other = name) →
      (tree calls).findOne query.letters result = (NOERROR, name)) ∧
    ((∃ name other, name ≠ other ∧ (name ∈ stored calls ∧ query.letters <+: name) ∧
      other ∈ stored calls ∧ query.letters <+: other) →
      ((tree calls).findOne query.letters result).1 = NAMEISTOOAMBIGUOUS) ∧
    ((∀ name ∈ stored calls, ¬query.letters <+: name) →
      ((tree calls).findOne query.letters result).1 = PLAYERWITHTHISNAMEISNOTONLINE) := by
  have hkeeps := keeps_tree calls
  have hspec := findOne_spec hkeeps.trimmed query.nonempty result
  simp only [hkeeps.holds] at hspec
  exact hspec

end WildcardTreeNode

end TibiaServer.Players
