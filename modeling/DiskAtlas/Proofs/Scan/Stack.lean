/-
What the stack of a walk stands for. An object that waits stands for its own
visit and the visits to everything below it, and a stack for what all the
objects on it stand for, from the top down (`unvisited`). This is the part
of the tree that was not visited yet: the visit to the object on top takes
the first visit away and no other, because what is found in a directory
stands for all that comes below it (`unvisited_cons`). That is the invariant
of the loop. So a walk makes the visits that its stack stands for, in their
order, until nothing waits or something ends it
(`visitPending_eq_visitAll`), and since only the root waits at first, those
are the visits of the whole tree.
-/
import DiskAtlas.Scan.Walk
import DiskAtlas.Proofs.Scan.Visits

namespace DiskAtlas.Scan

variable {β σ : Type} {device : UInt64} {separator : Char}

-- ============================================================= unvisited

/-- The visits that an object stands for while it waits: its own and those
to everything below it. -/
def Pending.visits (device : UInt64) (separator : Char) (p : Pending σ) :
    List (Visit σ) :=
  let below :=
    if p.isDirectory && p.facts.listable then
      (sortedByName
        (Tree.visitsBelow device separator p.path p.entries)).flatMap (·.2)
    else []
  p.visit device separator :: below

/-- The visits that a stack stands for. -/
def unvisited (device : UInt64) (separator : Char)
    (stack : List (Pending σ)) : List (Visit σ) :=
  stack.flatMap (Pending.visits device separator)

/-- An entry that waits stands for its visits. -/
theorem Tree.visits_of_pending? {t : Tree σ} {path : String} {p : Pending σ}
    (h : t.pending? device path = some p) :
    t.visits device separator path = p.visits device separator := by
  cases t with
  | lost name => cases h
  | object name facts entries =>
    rw [visits, h]
    obtain ⟨inode, -, rfl⟩ := Option.map_eq_some_iff.1 h
    rfl

/-- Where only the root waits, nothing of the tree was visited. -/
theorem unvisited_root (t : Tree σ) (path : String) :
    unvisited device separator (t.pending? device path).toList
      = t.visits device separator path := by
  cases hp : t.pending? device path with
  | none =>
    rw [Tree.visits_eq_nil (by rw [t.inodeOn_eq_map_pending?, hp]; rfl)]
    rfl
  | some p =>
    rw [Tree.visits_of_pending? hp]
    exact List.append_nil _

/-- The visits below a directory are those that its entries stand for, each
under its name. -/
theorem Pending.visitsBelow_eq (p : Pending σ) :
    Tree.visitsBelow device separator p.path p.entries
      = (p.found device separator).map
        fun c => (c.1, c.2.visits device separator) := by
  unfold found
  generalize p.entries = entries
  induction entries with
  | nil => rfl
  | cons t rest ih =>
    let path := childPath separator p.path t.name
    rw [Tree.visitsBelow, ih, List.filterMap_cons,
      t.inodeOn_eq_map_pending? device path]
    cases hp : t.pending? device path with
    | none => rfl
    | some child =>
      rw [Tree.visits_of_pending? hp]
      rfl

/-- An object stands for its own visit and for what its children stand for,
in the order in which they come to lie on the stack. -/
theorem Pending.visits_eq (p : Pending σ) :
    p.visits device separator
      = p.visit device separator ::
        unvisited device separator
          ((p.children device separator).map (·.2)) := by
  unfold visits unvisited children
  split
  · rw [p.visitsBelow_eq, ← sortedByName_map, List.flatMap_map,
      List.flatMap_map]
  · rfl

/-- A visit to the object on top leaves the stack with what was not visited
before, but for this visit. -/
theorem unvisited_cons (p : Pending σ) (rest : List (Pending σ)) :
    unvisited device separator (p :: rest)
      = p.visit device separator ::
        unvisited device separator (p.below device separator rest) := by
  unfold unvisited
  rw [List.flatMap_cons, p.visits_eq, Pending.below, Pending.pushAll_eq,
    List.flatMap_append]
  rfl

-- ================================================================== walks

namespace Walk

variable [Backend β]

/-- Makes visits, one after the other, each with a checkpoint behind it if
it is time to. -/
def visitAll (interval : Option UInt64) (watch : Watch) :
    List (Visit σ) → Walk β → Except Stop Unit × Walk β
  | [], w => (.ok (), w)
  | v :: rest, w =>
    if watch.beforeVisit w.visited then (.error .calledOff, w)
    else
      match w.visit v with
      | (.error e, w) => (.error (.failed e), w)
      | (.ok (), w) =>
        match w.checkpoint interval with
        | (.error stop, w) => (.error stop, w)
        | (.ok (), w) => visitAll interval watch rest w

/-- A walk makes the visits that its stack stands for, whatever ends it. -/
theorem visitPending_eq_visitAll (interval : Option UInt64) (watch : Watch)
    (stack : List (Pending σ)) (w : Walk β) :
    w.visitPending interval watch device separator stack
      = w.visitAll interval watch (unvisited device separator stack) := by
  fun_induction visitPending interval watch device separator stack w with
  | case1 w => rfl
  | case2 p rest w hcalled =>
    rw [unvisited_cons, visitAll, if_pos hcalled]
  | case3 p rest w hgoes e w' hvisit =>
    rw [unvisited_cons, visitAll, if_neg hgoes, hvisit]
  | case4 p rest w hgoes w₁ hvisit stop w₂ hsaves =>
    rw [unvisited_cons, visitAll, if_neg hgoes, hvisit]
    simp only [hsaves]
  | case5 p rest w hgoes w₁ hvisit w₂ hsaves ih =>
    rw [unvisited_cons, visitAll, if_neg hgoes, hvisit]
    simp only [hsaves]
    exact ih

end Walk

end DiskAtlas.Scan
