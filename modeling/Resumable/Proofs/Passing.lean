import Resumable.Proofs.Places
import Resumable.Proofs.RoundTrip

/-!
# Injected code passed by

Where nothing is suspended, injected code is passed by: the prologue goes on to the first block, the
code in front of a call goes on to the call, and the code behind it to the next block.  Outside of
coroutines it does nothing else.  Inside of one, the operands of a call whose callee is not woven are
in a staging frame during the call, and nothing is different once the call has ended.

* `Machine.Idle` : no coroutine runs;
* `Layout.Laid.passes_body` : from the start of a woven method to its first block;
* `Layout.Laid.passes_own`, `Layout.Laid.passes_next` : over the code around a call.
-/

namespace Resumable

/-! ## single instructions -/

namespace Machine

variable {w : World} {m : Machine} {x : Activation} {rest : List Pending} {l : Label} {n : Nat}
  {stack : List Value} {S : Nat → Prop}

theorem passes_label (hS : S x.position) (hi : x.method.code[x.position]? = some (.label l)) :
    Passes w S (m.goOn x rest) (m.goOn { x with position := x.position + 1 } rest) :=
  .of_step hS (step_next (b := x) hi rfl) rfl

theorem passes_jump (hS : S x.position) (hi : x.method.code[x.position]? = some (.jump l))
    (hn : labelPosition l x.method.code = some n) :
    Passes w S (m.goOn x rest) (m.goOn { x with position := n } rest) :=
  .of_step hS (step_jump (b := x) hi rfl hn) rfl

/-- a branch that is taken -/
theorem passes_branch {c : Cond} {v : Int32} (hS : S x.position)
    (hi : x.method.code[x.position]? = some (.branch c l))
    (hs : x.stack = .int v :: stack) (hv : c.test v 0 = true)
    (hn : labelPosition l x.method.code = some n) :
    Passes w S (m.goOn x rest) (m.goOn { x with position := n, stack } rest) := by
  refine .of_step hS (step_jump (l := l) (b := { x with stack }) hi ?_ hn) rfl
  rw [Insn.run_branch hs, hv]
  rfl

/-- no coroutine runs -/
def Idle (m : Machine) : Prop := m.engine.active = []

/-- a guard is not passed where no coroutine runs -/
theorem passes_guard (hS : S x.position) (hS' : S (x.position + 1)) (hw : w.Supplies) (hm : m.Idle)
    (hcode : Holds x.method.code x.position [Intrinsic.exists.call, .branch .eq l])
    (hn : labelPosition l x.method.code = some n) :
    Passes w S (m.goOn x rest) (m.goOn { x with position := n } rest) := by
  have hexists : Passes w S (m.goOn x rest) (m.goOn
      { x with position := x.position + 1, stack := .ofBool false :: x.stack } rest) :=
    passes_injected [] hS (v := some (.ofBool false)) hw rfl hcode.head rfl rfl
      (e := m.engine) fun m' he _ => by
        rw [Intrinsic.run_exists, ← he, Engine.exists_of_active_nil (by rw [he]; exact hm)]
  exact hexists.trans (passes_branch hS' hcode.tail.head rfl rfl hn)

/-- where nothing is being suspended, the way on is taken -/
theorem passes_onward (hS : S x.position) (hS' : S (x.position + 1)) (hw : w.Supplies)
    (hm : m.engine.isYielding = false)
    (hcode : Holds x.method.code x.position [Intrinsic.isYielding.call, .branch .eq l])
    (hn : labelPosition l x.method.code = some n) :
    Passes w S (m.goOn x rest) (m.goOn { x with position := n } rest) := by
  have hasks : Passes w S (m.goOn x rest) (m.goOn
      { x with position := x.position + 1, stack := .ofBool false :: x.stack } rest) :=
    passes_injected [] hS (v := some (.ofBool false)) hw rfl hcode.head rfl rfl
      (e := m.engine) fun m' he _ => by
        rw [Intrinsic.run_isYielding, ← he, show m'.engine.isYielding = false by rw [he, hm]]
  exact hasks.trans (passes_branch hS' hcode.tail.head rfl rfl hn)

end Machine

/-! ## the prologue -/

/-- the number of the site is asked for -/
theorem Takes.askState {w : World} {h : Heap} {c d : Coroutine Call Call} {k : Int32} {body : Label}
    {locals stack : List Value} (hw : w.Supplies) (hpop : c.popState = (k, d)) (hid : d.id = c.id) :
    Takes w h [Intrinsic.exists.call, .branch .eq body, Intrinsic.popState.call, .dup] ⟨c, locals, stack⟩
      ⟨d, locals, .int k :: .int k :: stack⟩ := by
  have hstate : Takes w h [Intrinsic.popState.call] ⟨c, locals, stack⟩ ⟨d, locals, .int k :: stack⟩ :=
    .call [] (r := some (.int k)) hw rfl rfl hid fun m hm _ => by
      rw [Intrinsic.run_popState hm, hpop]
  have hdup : Takes w h [.dup] ⟨d, locals, .int k :: stack⟩ ⟨d, locals, .int k :: .int k :: stack⟩ := by
    refine .insn fun g a hl hst => ?_
    rw [Insn.run_dup hst, hl]
  exact (Takes.existsCall hw).cons ((Takes.branch_next rfl).cons (hstate.cons hdup))

namespace Layout

variable {a : Analysis} {m m' : Method} {l : Layout a m} {w : World} {s : Machine}
  {x : Activation} {rest : List Pending}

theorem Laid.holds_prologue (h : l.Laid m') : Holds m'.code 0 l.prologue := by
  rw [h.code_eq]
  exact ⟨[], _, rfl, rfl⟩

/-- **The prologue** goes on to the first block where nothing is saved for the activation -/
theorem Laid.passes_body (h : l.Laid m') (hfit : l.Fits) (hw : w.Supplies)
    (hs : s.Idle ∨ ∃ c, s.engine.Runs c ∧ c.states = []) (hx : x.method = m')
    (hp : x.position = 0) :
    Machine.Passes w l.Between (s.goOn x rest) (s.goOn { x with position := l.start 0 } rest) := by
  have hcode := h.holds_prologue
  rw [prologue_eq] at hcode
  have hbody := h.labelPosition_body hfit
  have hnoState := h.labelPosition_noState hfit
  have hend := hcode.right
  rw [Nat.zero_add] at hend
  have hS : ∀ q, q < l.entrance.length + 3 → l.Between q := fun q hq =>
    between_of_lt_start (by rw [start_zero]; exact hq)
  have hlen : 5 ≤ l.entrance.length := by
    unfold entrance
    simp only [List.length_append, List.length_cons]
    omega
  have hguard : Holds m'.code 0 [Intrinsic.exists.call, .branch .eq l.labels.body,
      Intrinsic.popState.call, .dup, .branch .lt l.labels.noState] := hcode.left.left.left
  have hlast : Machine.Passes w l.Between (s.goOn { x with position := l.entrance.length + 2 } rest)
      (s.goOn { x with position := l.start 0 } rest) := by
    rw [start_zero]
    exact Machine.passes_label (x := { x with position := l.entrance.length + 2 })
      (hS _ (Nat.lt_succ_self _)) (by rw [show x.method = m' from hx]; exact hend.tail.tail.head)
  rcases hs with hs | ⟨c, hc, hstates⟩
  · refine .trans ?_ hlast
    exact Machine.passes_guard (hS _ (by omega)) (hS _ (by omega)) hw hs
      (by rw [hx, hp]; exact hguard.take 2) (by rw [hx]; exact hbody)
  · -- no number of a site is left
    have hpop : c.popState = (-1, c) := by
      unfold Coroutine.popState
      rw [hstates]
    have hasks : Takes w s.heap [Intrinsic.exists.call, .branch .eq l.labels.body,
        Intrinsic.popState.call, .dup] ⟨c, x.locals, x.stack⟩
        ⟨c, x.locals, .int (-1) :: .int (-1) :: x.stack⟩ := .askState hw hpop rfl
    have hrun := hasks.passes rest (S := l.Between)
      (fun i hi => hS _ (by rw [hp]; change i < 4 at hi; omega)) rfl hc rfl rfl
      (by rw [hx, hp]; exact hguard.take 4)
    rw [Machine.put_self hc] at hrun
    have hbranch : Machine.Passes w l.Between
        (s.goOn { x with position := 4, stack := .int (-1) :: .int (-1) :: x.stack } rest) _ :=
      Machine.passes_branch (hS _ (by change 4 < _; omega))
        (by rw [show x.method = m' from hx]; exact hguard.tail.tail.tail.tail.head) rfl rfl
        (by rw [show x.method = m' from hx]; exact hnoState)
    have hmiddle : Machine.Passes w l.Between
        (s.goOn { x with position := l.entrance.length, stack := .int (-1) :: x.stack } rest) _ :=
      Machine.passes_label (hS _ (by change l.entrance.length < _; omega))
        (by rw [show x.method = m' from hx]; exact hend.head)
    have hpopped : (s.goOn { x with
        position := l.entrance.length + 1, stack := .int (-1) :: x.stack } rest).step w =
        s.goOn { x with position := l.entrance.length + 2 } rest :=
      Machine.step_next (b := { x with position := l.entrance.length + 1 })
        (by rw [show x.method = m' from hx]; exact hend.tail.head) (Insn.run_pop rfl)
    have hstart : x.behind [Intrinsic.exists.call, .branch .eq l.labels.body,
        Intrinsic.popState.call, .dup] x.locals (.int (-1) :: .int (-1) :: x.stack) =
        { x with position := 4, stack := .int (-1) :: .int (-1) :: x.stack } := by
      unfold Activation.behind
      rw [hp]
      rfl
    rw [hstart] at hrun
    exact (((hrun.trans hbranch).trans hmiddle).trans
      (.of_step (hS _ (Nat.lt_succ_of_lt (Nat.lt_succ_self _))) hpopped rfl)).trans hlast

/-! ## in front of a call -/

variable {n : Nat} {b : Block} {y : Around}

/-- from the start of a block to where the call stands once its level is restored -/
theorem Laid.passes_call (h : l.Laid m') (hfit : l.Fits) (hb : l.blocks[n]? = some b)
    (hy : b.around = some y) (hx : x.method = m') (hp : x.position = l.start n) :
    Machine.Passes w l.Between (s.goOn x rest) (s.goOn { x with position := l.start n +
      (3 + (restoreCode y.site.unpatchable y.frame y.shape).length) } rest) := by
  obtain ⟨hstand, -⟩ := h.stand hb hy
  have hfound := h.found hfit hb hy
  obtain ⟨hown, hafter, hno, -⟩ := y.places a l.ret
  have hS : ∀ j, j < 2 → l.Between (l.start n + j) := fun j hj =>
    h.between_around hb hy (by omega) (by omega)
  have h1 : Machine.Passes w l.Between (s.goOn x rest) _ :=
    Machine.passes_label (by rw [hp]; exact hS 0 (by omega)) (by rw [hx, hp]; exact hstand.pre.head)
  have h2 : Machine.Passes w l.Between (s.goOn { x with position := x.position + 1 } rest) _ :=
    Machine.passes_jump (by rw [show x.position = _ from hp]; exact hS 1 (by omega))
      (by rw [show x.method = m' from hx, show x.position = l.start n from hp]
          exact hstand.pre.tail.head)
      (by rw [show x.method = m' from hx]; exact hfound.call)
  exact h1.trans h2

/-- from there to the call, where its operands are not staged -/
theorem Laid.passes_own (h : l.Laid m') (hfit : l.Fits) (hw : w.Supplies)
    (hb : l.blocks[n]? = some b) (hy : b.around = some y)
    (hs : y.site.unpatchable = false ∨ s.Idle) (hx : x.method = m')
    (hp : x.position = l.start n + (3 + (restoreCode y.site.unpatchable y.frame y.shape).length)) :
    Machine.Passes w l.Between (s.goOn x rest)
      (s.goOn { x with position := l.start n + y.ownAt } rest) := by
  obtain ⟨hstand, -⟩ := h.stand hb hy
  obtain ⟨hown, hafter, hno, hending, hboth⟩ := y.places a l.ret
  have hS : ∀ j, j < y.noYieldAt a l.ret + 1 + y.ending.length → j ≠ y.ownAt →
      l.Between (l.start n + j) := fun j => h.between_around hb hy
  have hfound := h.found hfit hb hy
  have hat : y.ownAt = 5 + (restoreCode y.site.unpatchable y.frame y.shape).length +
    y.staging.length := rfl
  have hcall := hstand.call
  unfold Around.fromCall at hcall
  have h1 : Machine.Passes w l.Between (s.goOn x rest) _ :=
    Machine.passes_label (by rw [hp]; exact hS _ (by omega) (by omega))
      (by rw [hx, hp]; exact hcall.head)
  have hlast : Machine.Passes w l.Between (s.goOn { x with position := l.start n + (y.ownAt - 1) } rest)
      (s.goOn { x with position := l.start n + y.ownAt } rest) := by
    have hinvoke : Machine.Passes w l.Between
        (s.goOn { x with position := l.start n + (y.ownAt - 1) } rest) _ :=
      Machine.passes_label (hS _ (by omega) (by omega))
      (by rw [show x.method = m' from hx]; exact hstand.invoke.head)
    have hpos : l.start n + (y.ownAt - 1) + 1 = l.start n + y.ownAt := by omega
    dsimp only at hinvoke
    rwa [hpos] at hinvoke
  refine h1.trans (Machine.Passes.trans ?_ hlast)
  cases hu : y.site.unpatchable with
  | false =>
    have hlen : y.staging.length = 0 := by
      unfold Around.staging
      rw [if_neg (by rw [hu]; simp)]
      rfl
    have hpos : x.position + 1 = l.start n + (y.ownAt - 1) := by omega
    rw [hpos]
    exact .refl _
  | true =>
    have hidle : s.Idle := hs.resolve_left (by rw [hu]; simp)
    have hstaging : y.staging = stageCode y.shape.window y.labels.staged := by
      unfold Around.staging
      rw [if_pos hu]
    have hlen : 3 ≤ y.staging.length := by
      rw [hstaging, stageCode, List.length_append, List.length_append, List.length_append]
      exact Nat.le_add_right_of_le (Nat.le_add_right_of_le (Nat.le_add_right 3 _))
    have hguard : Holds m'.code (x.position + 1)
        [Intrinsic.exists.call, .branch .eq y.labels.staged] := by
      have htail := hcall.tail
      rw [hstaging] at htail
      rw [hp]
      exact htail.left.take 2
    have h2 : Machine.Passes w l.Between (s.goOn { x with position := x.position + 1 } rest) _ :=
      Machine.passes_guard
        (by rw [show x.position = _ from hp, Nat.add_assoc]; exact hS _ (by omega) (by omega))
        (by rw [show x.position = _ from hp, Nat.add_assoc, Nat.add_assoc]; exact hS _ (by omega) (by omega))
        hw hidle
        (by rw [show x.method = m' from hx]; exact hguard)
        (by rw [show x.method = m' from hx]; exact hfound.staged hu)
    have h3 : Machine.Passes w l.Between (s.goOn { x with position := l.start n + (y.ownAt - 2) } rest) _ :=
      Machine.passes_label (hS _ (by omega) (by omega))
        (by rw [show x.method = m' from hx]; exact getElem?_of_labelPosition (hfound.staged hu))
    have hpos : l.start n + (y.ownAt - 2) + 1 = l.start n + (y.ownAt - 1) := by omega
    dsimp only at h3
    rw [hpos] at h3
    exact h2.trans h3

/-- from there to the call, where its operands are staged -/
theorem Laid.passes_own_staged (h : l.Laid m') (hw : w.Supplies) (hb : l.blocks[n]? = some b)
    (hy : b.around = some y) (hu : y.site.unpatchable = true) {c : Coroutine Call Call}
    {es : List (Category × Value)} {below : List Value} (hc : s.engine.Runs c)
    (hes : Admitted w.program s.heap es) (hwindow : es.map Prod.fst = y.shape.window)
    (hlen : es.length ≤ 2 ^ 31) (hx : x.method = m')
    (hp : x.position = l.start n + (3 + (restoreCode y.site.unpatchable y.frame y.shape).length))
    (hstack : x.stack = (es.map Prod.snd).reverse ++ below) :
    Machine.Passes w l.Between (s.goOn x rest) ((s.put (c.opening (keptOf es.reverse))).goOn
      { x with position := l.start n + y.ownAt } rest) := by
  obtain ⟨hstand, -⟩ := h.stand hb hy
  obtain ⟨hown, hafter, hno, hending, hboth⟩ := y.places a l.ret
  have hS : ∀ j, j < y.noYieldAt a l.ret + 1 + y.ending.length → j ≠ y.ownAt →
      l.Between (l.start n + j) := fun j => h.between_around hb hy
  have hat : y.ownAt = 5 + (restoreCode y.site.unpatchable y.frame y.shape).length +
    y.staging.length := rfl
  have hcall := hstand.call
  have hstaging : y.staging = stageCode (es.map Prod.fst) y.labels.staged := by
    unfold Around.staging
    rw [if_pos hu, hwindow]
  unfold Around.fromCall at hcall
  have h1 : Machine.Passes w l.Between (s.goOn x rest) _ :=
    Machine.passes_label (by rw [hp]; exact hS _ (by omega) (by omega))
      (by rw [hx, hp]; exact hcall.head)
  have htakes : Takes w s.heap (stageCode (es.map Prod.fst) y.labels.staged)
      ⟨c, x.locals, (es.map Prod.snd).reverse ++ below⟩
      ⟨c.opening (keptOf es.reverse), x.locals, (es.map Prod.snd).reverse ++ below⟩ :=
    .stageCode hw hes (.of_length (by rw [List.length_map]; exact hlen))
  have h2 := htakes.passes (a := { x with position := x.position + 1 }) rest (S := l.Between)
    (fun i hi => by
      rw [← hstaging] at hi
      rw [show x.position = _ from hp, Nat.add_assoc, Nat.add_assoc]
      exact hS _ (by omega) (by omega)) rfl hc rfl hstack
    (by rw [show x.method = m' from hx, show x.position = _ from hp, ← hstaging]
        exact hcall.tail.left)
  have hend : Activation.behind { x with position := x.position + 1 }
      (stageCode (es.map Prod.fst) y.labels.staged) x.locals ((es.map Prod.snd).reverse ++ below) =
      { x with position := l.start n + (y.ownAt - 1) } := by
    unfold Activation.behind
    rw [← hstaging, ← hstack]
    have hpos : x.position + 1 + y.staging.length = l.start n + (y.ownAt - 1) := by omega
    dsimp only
    rw [hpos]
  rw [hend] at h2
  have h3 : Machine.Passes w l.Between
      ((s.put (c.opening (keptOf es.reverse))).goOn
        { x with position := l.start n + (y.ownAt - 1) } rest) _ :=
    Machine.passes_label (hS _ (by omega) (by omega))
      (by rw [show x.method = m' from hx]; exact hstand.invoke.head)
  have hpos : l.start n + (y.ownAt - 1) + 1 = l.start n + y.ownAt := by omega
  dsimp only at h3
  rw [hpos] at h3
  exact (h1.trans h2).trans h3

/-! ## behind a call -/

/-- from the return of a call to the question whether its callee is being suspended -/
theorem Laid.passes_after (h : l.Laid m') (hfit : l.Fits) (hb : l.blocks[n]? = some b)
    (hy : b.around = some y) (hx : x.method = m') (hp : x.position = l.start n + (y.ownAt + 1)) :
    Machine.Passes w l.Between (s.goOn x rest)
      (s.goOn { x with position := l.start n + (y.afterAt + 1) } rest) := by
  obtain ⟨hstand, -⟩ := h.stand hb hy
  obtain ⟨hown, hafter, hno, hending, hboth⟩ := y.places a l.ret
  have hS : ∀ j, j < y.noYieldAt a l.ret + 1 + y.ending.length → j ≠ y.ownAt →
      l.Between (l.start n + j) := fun j => h.between_around hb hy
  have hfound := h.found hfit hb hy
  have hat : y.afterAt = y.ownAt + 2 + (rethrowCode y.site y.labels).length := rfl
  have h1 : Machine.Passes w l.Between (s.goOn x rest) _ :=
    Machine.passes_label (by rw [hp]; exact hS _ (by omega) (by omega))
      (by rw [hx, hp]; exact getElem?_of_labelPosition hfound.invokeEnd)
  have hlast : Machine.Passes w l.Between (s.goOn { x with position := l.start n + y.afterAt } rest)
      (s.goOn { x with position := l.start n + (y.afterAt + 1) } rest) :=
    Machine.passes_label (x := { x with position := l.start n + y.afterAt })
      (hS _ (by omega) (by omega)) (by rw [show x.method = m' from hx]; exact getElem?_of_labelPosition hfound.after)
  refine h1.trans (Machine.Passes.trans ?_ hlast)
  cases hu : y.site.unpatchable with
  | false =>
    have hlen : (rethrowCode y.site y.labels).length = 0 := by
      unfold rethrowCode
      rw [if_neg (by rw [hu]; simp)]
      rfl
    have hpos : x.position + 1 = l.start n + y.afterAt := by omega
    rw [hpos]
    exact .refl _
  | true =>
    have hjump : m'.code[x.position + 1]? = some (.jump y.labels.after) := by
      have hrethrow := hstand.rethrow
      unfold Around.fromRethrow rethrowCode at hrethrow
      rw [if_pos hu] at hrethrow
      have hpos : x.position + 1 = l.start n + (y.ownAt + 2) := by omega
      rw [hpos]
      exact hrethrow.left.left.left.head
    exact Machine.passes_jump (x := { x with position := x.position + 1 })
      (by rw [show x.position = _ from hp, Nat.add_assoc]; exact hS _ (by omega) (by omega))
      (by rw [show x.method = m' from hx]; exact hjump)
      (by rw [show x.method = m' from hx]; exact hfound.after)

/-- from the question on, where nothing is being suspended -/
theorem Laid.passes_ending (h : l.Laid m') (hfit : l.Fits) (hw : w.Supplies)
    (hb : l.blocks[n]? = some b) (hy : b.around = some y) (hs : s.engine.isYielding = false)
    (hx : x.method = m') (hp : x.position = l.start n + (y.afterAt + 1)) :
    Machine.Passes w l.Between (s.goOn x rest)
      (s.goOn { x with position := l.start n + (y.noYieldAt a l.ret + 1) } rest) := by
  obtain ⟨hstand, -⟩ := h.stand hb hy
  obtain ⟨hown, hafter, hno, hending, hboth⟩ := y.places a l.ret
  have hS : ∀ j, j < y.noYieldAt a l.ret + 1 + y.ending.length → j ≠ y.ownAt →
      l.Between (l.start n + j) := fun j => h.between_around hb hy
  have hfound := h.found hfit hb hy
  have hasks := hstand.after
  unfold Around.fromAfter at hasks
  have h1 : Machine.Passes w l.Between (s.goOn x rest) _ :=
    Machine.passes_onward (by rw [hp]; exact hS _ (by omega) (by omega))
      (by rw [hp, Nat.add_assoc]; exact hS _ (by omega) (by omega)) hw hs
      (by rw [hx, hp]; exact hasks.tail.take 2)
      (by rw [hx]; exact hfound.noYield)
  have h2 : Machine.Passes w l.Between
      (s.goOn { x with position := l.start n + y.noYieldAt a l.ret } rest) _ :=
    Machine.passes_label (hS _ (by omega) (by omega))
      (by rw [show x.method = m' from hx]; exact getElem?_of_labelPosition hfound.noYield)
  exact h1.trans h2

/-- the code that saves stands behind the question -/
theorem Laid.holds_save (h : l.Laid m') (hb : l.blocks[n]? = some b) (hy : b.around = some y) :
    Holds m'.code (l.start n + (y.afterAt + 3)) (saveCode a l.ret y.site y.frame y.shape) := by
  have hafter := (h.stand hb hy).1.after
  unfold Around.fromAfter at hafter
  exact hafter.tail.tail.tail.left

/-- from the question on, where something is being suspended -/
theorem Laid.passes_suspending (h : l.Laid m') (hw : w.Supplies) (hb : l.blocks[n]? = some b)
    (hy : b.around = some y) (hs : s.engine.isYielding = true) (hx : x.method = m')
    (hp : x.position = l.start n + (y.afterAt + 1)) :
    Machine.Passes w l.Between (s.goOn x rest)
      (s.goOn { x with position := l.start n + (y.afterAt + 3) } rest) := by
  obtain ⟨hstand, -⟩ := h.stand hb hy
  obtain ⟨hown, hafter, hno, hending, hboth⟩ := y.places a l.ret
  have hS : ∀ j, j < y.noYieldAt a l.ret + 1 + y.ending.length → j ≠ y.ownAt →
      l.Between (l.start n + j) := fun j => h.between_around hb hy
  have hasked := hstand.after
  unfold Around.fromAfter at hasked
  have hcode : Holds x.method.code x.position (Intrinsic.isYielding.call :: .branch .eq y.labels.noYield ::
      (saveCode a l.ret y.site y.frame y.shape ++ y.fromNoYield)) := by
    rw [hx, hp]
    exact hasked.tail
  have hasks : Machine.Passes w l.Between (s.goOn x rest) (s.goOn
      { x with position := x.position + 1, stack := .ofBool true :: x.stack } rest) :=
    Machine.passes_injected [] (by rw [hp]; exact hS _ (by omega) (by omega)) (v := some (.ofBool true)) hw
      rfl hcode.head rfl rfl (e := s.engine) fun m' he _ => by
        rw [Intrinsic.run_isYielding, ← he, show m'.engine.isYielding = true by rw [he, hs]]
  have hstays : Machine.Passes w l.Between
      (s.goOn { x with position := x.position + 1, stack := .ofBool true :: x.stack } rest)
      (s.goOn { x with position := x.position + 2 } rest) :=
    .of_step (by rw [show x.position = _ from hp, Nat.add_assoc]; exact hS _ (by omega) (by omega))
      (Machine.step_next (b := { x with position := x.position + 1 }) hcode.tail.head
      (by rw [Insn.run_branch (n := 1) rfl]; rfl)) rfl
  have hboth := hasks.trans hstays
  rw [show x.position + 2 = l.start n + (y.afterAt + 3) by omega] at hboth
  exact hboth

/-- **Behind a call** whose operands are not staged, the next block follows -/
theorem Laid.passes_next (h : l.Laid m') (hfit : l.Fits) (hw : w.Supplies)
    (hb : l.blocks[n]? = some b) (hy : b.around = some y)
    (hs : y.site.unpatchable = false ∨ s.Idle) (hyield : s.engine.isYielding = false)
    (hx : x.method = m') (hp : x.position = l.start n + (y.ownAt + 1)) :
    Machine.Passes w l.Between (s.goOn x rest) (s.goOn { x with position := l.start (n + 1) } rest) := by
  obtain ⟨hstand, hnext⟩ := h.stand hb hy
  obtain ⟨hown, hafter, hno, hending, hboth⟩ := y.places a l.ret
  have hS : ∀ j, j < y.noYieldAt a l.ret + 1 + y.ending.length → j ≠ y.ownAt →
      l.Between (l.start n + j) := fun j => h.between_around hb hy
  have hfound := h.found hfit hb hy
  have h1 : Machine.Passes w l.Between (s.goOn x rest)
      (s.goOn { x with position := l.start n + (y.noYieldAt a l.ret + 1) } rest) :=
    (h.passes_after hfit hb hy hx hp).trans
      (h.passes_ending (x := { x with position := l.start n + (y.afterAt + 1) }) hfit hw hb hy
        hyield hx rfl)
  have hlast : Machine.Passes w l.Between
      (s.goOn { x with position := l.start n + (y.noYieldAt a l.ret + y.ending.length) } rest)
      (s.goOn { x with position := l.start (n + 1) } rest) := by
    have hpost : Machine.Passes w l.Between
        (s.goOn
          { x with position := l.start n + (y.noYieldAt a l.ret + y.ending.length) } rest) _ :=
      Machine.passes_label (hS _ (by omega) (by omega))
        (by rw [show x.method = m' from hx]; exact getElem?_of_labelPosition hfound.post)
    have hpos : l.start n + (y.noYieldAt a l.ret + y.ending.length) + 1 = l.start (n + 1) := by
      omega
    dsimp only at hpost
    rwa [hpos] at hpost
  refine h1.trans (Machine.Passes.trans ?_ hlast)
  cases hu : y.site.unpatchable with
  | false =>
    have hlen : y.ending.length = 1 := by
      unfold Around.ending
      rw [if_neg (by rw [hu]; simp)]
      rfl
    rw [hlen]
    exact .refl _
  | true =>
    have hidle : s.Idle := hs.resolve_left (by rw [hu]; simp)
    have hlen := (hboth hu).2
    have hguard : Holds m'.code (l.start n + (y.noYieldAt a l.ret + 1))
        [Intrinsic.exists.call, .branch .eq y.labels.post] := by
      have hnoYield := hstand.noYield
      unfold Around.fromNoYield Around.ending at hnoYield
      rw [if_pos hu] at hnoYield
      exact hnoYield.tail.take 2
    exact Machine.passes_guard (x := { x with position := l.start n + (y.noYieldAt a l.ret + 1) })
      (hS _ (by omega) (by omega)) (hS (y.noYieldAt a l.ret + 1 + 1) (by omega) (by omega)) hw hidle
      (by rw [show x.method = m' from hx]; exact hguard)
      (by rw [show x.method = m' from hx]; exact hfound.post)

/-- dropping a staging frame -/
theorem takes_endStaging {h : Heap} {c : Coroutine Call Call} {vs locals stack : List Value}
    (hw : w.Supplies) {skip : Label} :
    Takes w h [Intrinsic.exists.call, .branch .eq skip, Intrinsic.endStaging.call]
      ⟨c.opening vs, locals, stack⟩ ⟨c, locals, stack⟩ := by
  have hend : Takes w h [Intrinsic.endStaging.call] ⟨c.opening vs, locals, stack⟩
      ⟨c, locals, stack⟩ :=
    .call [] (r := none) hw rfl rfl rfl fun m hm _ =>
      Intrinsic.run_endStaging hm (Coroutine.endStaging_opening c vs)
  exact (Takes.existsCall hw).cons ((Takes.branch_next rfl).cons hend)

/-- **Behind a call** whose operands are staged, the staging frame is dropped -/
theorem Laid.passes_next_staged (h : l.Laid m') (hfit : l.Fits) (hw : w.Supplies)
    (hb : l.blocks[n]? = some b) (hy : b.around = some y) (hu : y.site.unpatchable = true)
    {c : Coroutine Call Call} {vs : List Value} (hc : s.engine.Runs (c.opening vs))
    (hyield : c.yielding = false) (hx : x.method = m')
    (hp : x.position = l.start n + (y.ownAt + 1)) :
    Machine.Passes w l.Between (s.goOn x rest)
      ((s.put c).goOn { x with position := l.start (n + 1) } rest) := by
  obtain ⟨hstand, hnext⟩ := h.stand hb hy
  obtain ⟨hown, hafter, hno, hending, hboth⟩ := y.places a l.ret
  have hS : ∀ j, j < y.noYieldAt a l.ret + 1 + y.ending.length → j ≠ y.ownAt →
      l.Between (l.start n + j) := fun j => h.between_around hb hy
  have hfound := h.found hfit hb hy
  have hyielding : s.engine.isYielding = false := by
    rw [hc.isYielding_eq]
    exact hyield
  have h1 : Machine.Passes w l.Between (s.goOn x rest)
      (s.goOn { x with position := l.start n + (y.noYieldAt a l.ret + 1) } rest) :=
    (h.passes_after hfit hb hy hx hp).trans
      (h.passes_ending (x := { x with position := l.start n + (y.afterAt + 1) }) hfit hw hb hy
        hyielding hx rfl)
  have hcode : y.ending = [Intrinsic.exists.call, .branch .eq y.labels.post,
      Intrinsic.endStaging.call] ++ [.label y.labels.post] := by
    unfold Around.ending
    rw [if_pos hu]
    rfl
  have hnoYield := hstand.noYield
  unfold Around.fromNoYield at hnoYield
  have htail := hnoYield.tail
  rw [hcode] at htail
  have hlength := (hboth hu).2
  have hdrop : Takes w s.heap [Intrinsic.exists.call, .branch .eq y.labels.post,
      Intrinsic.endStaging.call] ⟨c.opening vs, x.locals, x.stack⟩ ⟨c, x.locals, x.stack⟩ :=
    takes_endStaging hw
  have h2 := hdrop.passes
    (a := { x with position := l.start n + (y.noYieldAt a l.ret + 1) }) rest (S := l.Between)
    (fun i hi => by
      change i < 3 at hi
      rw [Nat.add_assoc]
      exact hS _ (by omega) (by omega)) rfl hc rfl rfl
    (by rw [show x.method = m' from hx]; exact htail.left)
  have hlast : Machine.Passes w l.Between
      ((s.put c).goOn { x with position := l.start n + (y.noYieldAt a l.ret + 1) + 3 } rest) _ :=
    Machine.passes_label (hS (y.noYieldAt a l.ret + 1 + 3) (by omega) (by omega))
      (by rw [show x.method = m' from hx]; exact htail.right.head)
  have hpos : l.start n + (y.noYieldAt a l.ret + 1) + 3 + 1 = l.start (n + 1) := by
    have hlen : y.ending.length = 4 := by
      rw [hcode]
      rfl
    omega
  dsimp only at hlast
  rw [hpos] at hlast
  exact (h1.trans h2).trans hlast

/-! ## what a call throws -/

/-- the instruction that throws again what a call has thrown -/
theorem Laid.throw_at (h : l.Laid m') (hb : l.blocks[n]? = some b) (hy : b.around = some y)
    (hu : y.site.unpatchable = true) : m'.code[l.start n + (y.ownAt + 8)]? = some .throw := by
  obtain ⟨hstand, -⟩ := h.stand hb hy
  have hrethrow := hstand.rethrow
  unfold Around.fromRethrow rethrowCode at hrethrow
  rw [if_pos hu] at hrethrow
  have hi := hrethrow.left.getElem?_add (k := 6) (by simp [endStagingCode])
  rw [← Nat.add_assoc] at hi ⊢
  exact hi

/-- what a call has thrown is thrown again -/
theorem Laid.throws_again (h : l.Laid m') (hb : l.blocks[n]? = some b) (hy : b.around = some y)
    (hu : y.site.unpatchable = true) {r : Ref} {stack : List Value} (hx : x.method = m')
    (hp : x.position = l.start n + (y.ownAt + 8)) (hstack : x.stack = .ref (some r) :: stack) :
    (s.goOn x rest).step w = { s with
      pending := .activation { x with stack } :: rest, mode := .throwing (.exception r) } :=
  Machine.step_of_throw (i := .throw) (by rw [hx, hp]; exact h.throw_at hb hy hu) (Insn.run_throw hstack)

/-- from the handler of a call to where it is thrown again, where the operands are not staged -/
theorem Laid.passes_rethrow (h : l.Laid m') (hfit : l.Fits) (hw : w.Supplies)
    (hb : l.blocks[n]? = some b) (hy : b.around = some y) (hu : y.site.unpatchable = true)
    (hs : s.Idle) (hx : x.method = m') (hp : x.position = l.start n + (y.ownAt + 3)) :
    Machine.Passes w l.Between (s.goOn x rest)
      (s.goOn { x with position := l.start n + (y.ownAt + 8) } rest) := by
  obtain ⟨hstand, -⟩ := h.stand hb hy
  obtain ⟨hown, hafter, hno, hending, hboth⟩ := y.places a l.ret
  have hS : ∀ j, j < y.noYieldAt a l.ret + 1 + y.ending.length → j ≠ y.ownAt →
      l.Between (l.start n + j) := fun j => h.between_around hb hy
  have hfound := h.found hfit hb hy
  have hrethrow := hstand.rethrow
  unfold Around.fromRethrow rethrowCode at hrethrow
  rw [if_pos hu] at hrethrow
  have hguard : Holds m'.code (l.start n + (y.ownAt + 4))
      [Intrinsic.exists.call, .branch .eq y.labels.rethrow] :=
    hrethrow.left.left.right.take 2
  have h1 : Machine.Passes w l.Between (s.goOn x rest) _ :=
    Machine.passes_label (by rw [hp]; exact hS _ (by omega) (by omega))
      (by rw [hx, hp]; exact getElem?_of_labelPosition (hfound.handler hu))
  have h2 : Machine.Passes w l.Between (s.goOn { x with position := x.position + 1 } rest) _ :=
    Machine.passes_guard
      (by rw [show x.position = _ from hp, Nat.add_assoc]; exact hS _ (by omega) (by omega))
      (by rw [show x.position = _ from hp, Nat.add_assoc, Nat.add_assoc]; exact hS _ (by omega) (by omega))
      hw hs
      (by rw [show x.method = m' from hx, show x.position = _ from hp]; exact hguard)
      (by rw [show x.method = m' from hx]; exact hfound.rethrow hu)
  have hat := (hboth hu).1
  have h3 : Machine.Passes w l.Between (s.goOn { x with position := l.start n + (y.ownAt + 7) } rest) _ :=
    Machine.passes_label (hS _ (by omega) (by omega))
      (by rw [show x.method = m' from hx]; exact getElem?_of_labelPosition (hfound.rethrow hu))
  exact (h1.trans h2).trans h3

/-- from there to where it is thrown again, with the staging frame dropped -/
theorem Laid.passes_rethrow_staged (h : l.Laid m') (hfit : l.Fits) (hw : w.Supplies)
    (hb : l.blocks[n]? = some b) (hy : b.around = some y) (hu : y.site.unpatchable = true)
    {c : Coroutine Call Call} {vs : List Value} (hc : s.engine.Runs (c.opening vs))
    (hx : x.method = m') (hp : x.position = l.start n + (y.ownAt + 3)) :
    Machine.Passes w l.Between (s.goOn x rest)
      ((s.put c).goOn { x with position := l.start n + (y.ownAt + 8) } rest) := by
  obtain ⟨hstand, -⟩ := h.stand hb hy
  obtain ⟨hown, hafter, hno, hending, hboth⟩ := y.places a l.ret
  have hS : ∀ j, j < y.noYieldAt a l.ret + 1 + y.ending.length → j ≠ y.ownAt →
      l.Between (l.start n + j) := fun j => h.between_around hb hy
  have hfound := h.found hfit hb hy
  have hrethrow := hstand.rethrow
  unfold Around.fromRethrow rethrowCode at hrethrow
  rw [if_pos hu] at hrethrow
  have hguard : Holds m'.code (l.start n + (y.ownAt + 4)) [Intrinsic.exists.call,
      .branch .eq y.labels.rethrow, Intrinsic.endStaging.call, .label y.labels.rethrow] :=
    hrethrow.left.left.right
  have h1 : Machine.Passes w l.Between (s.goOn x rest) _ :=
    Machine.passes_label (by rw [hp]; exact hS _ (by omega) (by omega))
      (by rw [hx, hp]; exact getElem?_of_labelPosition (hfound.handler hu))
  have hdrop : Takes w s.heap [Intrinsic.exists.call, .branch .eq y.labels.rethrow,
      Intrinsic.endStaging.call] ⟨c.opening vs, x.locals, x.stack⟩ ⟨c, x.locals, x.stack⟩ :=
    takes_endStaging hw
  have h2 := hdrop.passes (a := { x with position := x.position + 1 }) rest (S := l.Between)
    (fun i hi => by
      change i < 3 at hi
      rw [show x.position = _ from hp, Nat.add_assoc, Nat.add_assoc]
      exact hS _ (by omega) (by omega)) rfl hc rfl rfl
    (by rw [show x.method = m' from hx, show x.position = _ from hp]
        exact hguard.take 3)
  have hat := (hboth hu).1
  have h3 : Machine.Passes w l.Between
      ((s.put c).goOn { x with position := l.start n + (y.ownAt + 7) } rest) _ :=
    Machine.passes_label (hS _ (by omega) (by omega))
      (by rw [show x.method = m' from hx]; exact getElem?_of_labelPosition (hfound.rethrow hu))
  have hend : Activation.behind { x with position := x.position + 1 } [Intrinsic.exists.call,
      .branch .eq y.labels.rethrow, Intrinsic.endStaging.call] x.locals x.stack =
      { x with position := l.start n + (y.ownAt + 7) } := by
    unfold Activation.behind
    dsimp only
    rw [hp]
    rfl
  rw [hend] at h2
  exact (h1.trans h2).trans h3

end Layout

end Resumable
