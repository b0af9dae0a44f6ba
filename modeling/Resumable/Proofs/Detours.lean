import Resumable.Proofs.MachineThread
import Resumable.Proofs.Mild

/-!
# The code around a call, whatever coroutines are like

The callee of a call may do anything to coroutines: it may be suspended, close a staging frame too many, or
leave one open.  Whatever it did, the code behind the call goes on to the next block, or ends its activation
without throwing an object; what the callee threw is thrown again.  In front of the call, the operands are
staged where a coroutine runs.

* `Machine.Steady` : no coroutine runs, or the running one is found;
* `Machine.Onward` : an activation goes on, and nothing has changed but coroutines;
* `Layout.Laid.leads_call`, `Layout.Laid.leads_own`, `Layout.Laid.leads_next` : to the instruction of a
  block, and from a call to the next block;
* `Layout.Laid.leads_rethrow` : to where the thrown object is thrown again.
-/

namespace Resumable

namespace Machine

variable {w : World} {s m : Machine} {x : Activation} {rest : List Pending} {S : Nat → Prop}
  {P : Machine → Prop}

/-- no coroutine runs, or the innermost running one is found -/
def Steady (m : Machine) : Prop := m.Idle ∨ ∃ c, m.engine.Runs c

theorem steady_of_orderly (h : m.thread.Orderly) : m.Steady := by
  cases hactive : m.engine.active with
  | nil => exact .inl hactive
  | cons id ids =>
    obtain ⟨c, hc⟩ := h.engine.found id (by
      rw [show m.thread.engine = m.engine from rfl, hactive]
      exact List.mem_cons_self)
    have hid : c.id = id := h.engine.numbered id c hc
    refine .inr ⟨c, ?_, ?_⟩
    · rw [hid, Engine.currentId?, hactive]
      rfl
    · rw [hid]
      exact hc

theorem steady_of_goOn (h : (s.goOn x rest).thread.Orderly) : s.Steady :=
  steady_of_orderly (m := s.goOn x rest) h

/-- the rules for coroutines hold on the way -/
theorem Leads.orderly (hm : m.thread.Orderly) (h : Leads w S P m) :
    Leads w S (fun m => P m ∧ m.thread.Orderly) m := by
  obtain ⟨n, hn, hcalm⟩ := h
  exact ⟨n, ⟨hn, orderly_after hm w n⟩, hcalm⟩

/-- the activation goes on, and nothing has changed but coroutines -/
def Onward (s : Machine) (x : Activation) (rest : List Pending) (m : Machine) : Prop :=
  ∃ e, m = ({ s with engine := e } : Machine).goOn x rest

theorem Passes.onward {e : Engine Call Call} {y : Activation}
    (h : Passes w S (s.goOn x rest) (({ s with engine := e } : Machine).goOn y rest)) :
    Leads w S (s.Onward y rest) (s.goOn x rest) := h.leads (.here ⟨e, rfl⟩)

/-- **A staging frame** is dropped; where a coroutine runs that has none, this fails -/
theorem leads_endStaging {skip : Label} (hS : ∀ j, j < 4 → S (x.position + j)) (hw : w.Supplies)
    (hs : s.Steady)
    (hcode : Holds x.method.code x.position (endStagingCode skip))
    (hskip : labelPosition skip x.method.code = some (x.position + 3)) :
    Leads w S (fun m => s.Onward { x with position := x.position + 4 } rest m ∨ m.Fails rest)
      (s.goOn x rest) := by
  have hlast (e : Engine Call Call) : Passes w S
      (({ s with engine := e } : Machine).goOn { x with position := x.position + 3 } rest)
      (({ s with engine := e } : Machine).goOn { x with position := x.position + 4 } rest) :=
    passes_label (x := { x with position := x.position + 3 }) (hS 3 (by omega)) hcode.tail.tail.tail.head
  rcases hs with hidle | ⟨c, hc⟩
  · exact ((passes_guard (hS 0 (by omega)) (hS 1 (by omega)) hw hidle (hcode.take 2) hskip).trans (hlast s.engine)).onward.mono fun _ => .inl
  · have hasks : Takes w s.heap [Intrinsic.exists.call, .branch .eq skip] ⟨c, x.locals, x.stack⟩
        ⟨c, x.locals, x.stack⟩ := (Takes.existsCall hw).cons (Takes.branch_next rfl)
    have hasked := hasks.passes rest (S := S) (fun i hi => hS i (Nat.lt_of_lt_of_le hi (Nat.le_add_right 2 2))) rfl hc rfl rfl
      (hcode.take 2)
    rw [put_self hc] at hasked
    refine hasked.leads ?_
    cases hend : c.endStaging with
    | mk r d =>
      cases r with
      | ok u =>
        have hends : Passes w S (s.goOn (x.behind [Intrinsic.exists.call, .branch .eq skip] x.locals x.stack) rest)
            ((s.put d).goOn { x with position := x.position + 3 } rest) :=
          passes_injected [] (hS 2 (by omega)) (v := none) hw rfl hcode.tail.tail.head rfl rfl fun m' he hh => by
            rw [Intrinsic.run_endStaging (by rw [he]; exact hc) hend, put, he]
        exact (hends.trans (hlast _)).onward.mono fun _ => .inl
      | error v =>
        refine (fails_injected [] (f := .violation v) (hS 2 (by omega)) hw rfl hcode.tail.tail.head rfl rfl fun m' he =>
          ⟨m'.engine.put d, ?_⟩).mono fun _ => .inr
        have hon : m'.engine.onCurrent Coroutine.endStaging = (.error v, m'.engine.put d) := by
          rw [he, Engine.Runs.onCurrent_eq hc, hend]
        show (Performing.current Coroutine.endStaging >>= fun _ => _).run m' = _
        rw [Effect.run_bind, show (Performing.current Coroutine.endStaging).run m' = _ from
          Performing.run_engine_error hon]

end Machine

/-! ## behind a call -/

namespace Layout

open Machine (Leads)

variable {a : Analysis} {m m' : Method} {l : Layout a m} {w : World} {s : Machine} {x : Activation}
  {rest : List Pending} {n : Nat} {b : Block} {y : Around}

/-- from the question on, where something is being suspended -/
theorem Laid.leads_suspending (h : l.Laid m') (hw : w.Supplies) (hb : l.blocks[n]? = some b)
    (hy : b.around = some y) (hs : s.engine.isYielding = true) (hx : x.method = m')
    (hp : x.position = l.start n + (y.afterAt + 1)) :
    Leads w l.Between (fun m => m.Leaves rest ∨ m.Fails rest) (s.goOn x rest) := by
  obtain ⟨hown, hat, hno, hlen, hboth⟩ := y.places a l.ret
  have hS : ∀ j, j < y.noYieldAt a l.ret + 1 + y.ending.length → j ≠ y.ownAt →
      l.Between (l.start n + j) := fun j => h.between_around hb hy
  have hsaves : y.noYieldAt a l.ret = y.afterAt + 3 + (saveCode a l.ret y.site y.frame y.shape).length := rfl
  have hcode : Holds x.method.code (l.start n + (y.afterAt + 3)) _ := hx ▸ h.holds_save hb hy
  refine (h.passes_suspending hw hb hy hs hx hp).leads (Machine.leads_saved (fun i hi => ?_) hw hcode
    ⟨s, { x with position := l.start n + (y.afterAt + 3) }, rfl, rfl, rfl⟩)
  rw [Nat.add_assoc]
  exact hS _ (by omega) (by omega)

/-- **Behind a call**, the next block follows, or the activation ends without throwing an object -/
theorem Laid.leads_next (h : l.Laid m') (hfit : l.Fits) (hw : w.Supplies) (hs : s.Steady)
    (hb : l.blocks[n]? = some b) (hy : b.around = some y) (hx : x.method = m')
    (hp : x.position = l.start n + (y.ownAt + 1)) :
    Leads w l.Between (fun m => s.Onward { x with position := l.start (n + 1) } rest m ∨ m.Leaves rest ∨
      m.Fails rest) (s.goOn x rest) := by
  obtain ⟨hstand, hnext⟩ := h.stand hb hy
  obtain ⟨hown, hat, hno, hlen, hboth⟩ := y.places a l.ret
  have hS : ∀ j, j < y.noYieldAt a l.ret + 1 + y.ending.length → j ≠ y.ownAt →
      l.Between (l.start n + j) := fun j => h.between_around hb hy
  have hfound := h.found hfit hb hy
  refine (h.passes_after hfit hb hy hx hp).leads ?_
  cases hyield : s.engine.isYielding with
  | true =>
    exact (h.leads_suspending (x := { x with position := l.start n + (y.afterAt + 1) }) hw hb hy hyield hx
      rfl).mono fun _ => .inr
  | false =>
    refine (h.passes_ending (x := { x with position := l.start n + (y.afterAt + 1) }) hfit hw hb hy
      hyield hx rfl).leads ?_
    have hcode := hstand.noYield.tail
    have hpost := hfound.post
    unfold Around.ending at hcode hpost hnext
    cases hu : y.site.unpatchable with
    | false =>
      rw [hu] at hcode hnext
      have hlast : Machine.Passes w l.Between (s.goOn { x with position := l.start n + (y.noYieldAt a l.ret + 1) } rest)
          _ := Machine.passes_label (hS _ (by omega) (by omega))
          (by rw [show x.method = m' from hx]; exact hcode.head)
      rw [hnext]
      exact hlast.onward.mono fun _ => .inl
    | true =>
      rw [hu] at hcode hpost hnext
      have hends : Leads w l.Between _
          (s.goOn { x with position := l.start n + (y.noYieldAt a l.ret + 1) } rest) :=
        Machine.leads_endStaging (fun j hj => by
          rw [show (_ : Activation).position = _ from rfl, Nat.add_assoc]
          exact hS _ (by rw [(hboth hu).2]; omega) (by omega)) hw hs (by rw [show x.method = m' from hx]; exact hcode)
        (by rw [show x.method = m' from hx]; exact hpost)
      rw [hnext]
      exact hends.mono fun _ hm => hm.imp_right .inr

/-- **What a call has thrown** is thrown again, unless dropping the staging frame fails -/
theorem Laid.leads_rethrow (h : l.Laid m') (hfit : l.Fits) (hw : w.Supplies) (hs : s.Steady)
    (hb : l.blocks[n]? = some b) (hy : b.around = some y) (hu : y.site.unpatchable = true)
    (hx : x.method = m') (hp : x.position = l.start n + (y.ownAt + 3)) :
    Leads w l.Between (fun m => s.Onward { x with position := l.start n + (y.ownAt + 8) } rest m ∨ m.Fails rest)
      (s.goOn x rest) := by
  obtain ⟨hstand, -⟩ := h.stand hb hy
  obtain ⟨hown, hat, hno, hlen, hboth⟩ := y.places a l.ret
  have hS : ∀ j, j < y.noYieldAt a l.ret + 1 + y.ending.length → j ≠ y.ownAt →
      l.Between (l.start n + j) := fun j => h.between_around hb hy
  have hfound := h.found hfit hb hy
  have hrethrow := hstand.rethrow
  unfold Around.fromRethrow rethrowCode at hrethrow
  rw [if_pos hu] at hrethrow
  have hcode : Holds m'.code (l.start n + (y.ownAt + 4)) (endStagingCode y.labels.rethrow) :=
    hrethrow.left.left.right
  have hlabel : Machine.Passes w l.Between (s.goOn x rest) (s.goOn { x with position := l.start n + (y.ownAt + 4) } rest) := by
    have hlabel : Machine.Passes w l.Between (s.goOn x rest) _ :=
      Machine.passes_label (by rw [hp]; exact hS _ (by omega) (by omega))
        (by rw [hx, hp]; exact getElem?_of_labelPosition (hfound.handler hu))
    rwa [hp] at hlabel
  exact hlabel.leads (Machine.leads_endStaging (x := { x with position := l.start n + (y.ownAt + 4) })
    (fun j hj => by
      have hrethrows := (hboth hu).1
      rw [show (_ : Activation).position = _ from rfl, Nat.add_assoc]
      exact hS _ (by omega) (by omega)) hw hs
    (by rw [show x.method = m' from hx]; exact hcode)
    (by rw [show x.method = m' from hx]; exact hfound.rethrow hu))

/-! ## in front of a call -/

/-- **From where a call is entered or entered again** to the call, with its operands staged where a coroutine
runs -/
theorem Laid.leads_call (h : l.Laid m') (hfit : l.Fits) (hw : w.Supplies) (hs : s.Steady)
    (hb : l.blocks[n]? = some b) (hy : b.around = some y) (hx : x.method = m')
    (hp : x.position = l.start n + (3 + (restoreCode y.site.unpatchable y.frame y.shape).length))
    (hwindow : y.site.unpatchable = true → Windowed w.program s.heap y.shape.window x.stack) :
    Leads w l.Between (s.Onward { x with position := l.start n + y.ownAt } rest) (s.goOn x rest) := by
  have hplain (hclosed : y.site.unpatchable = false ∨ s.Idle) :
      Leads w l.Between (s.Onward { x with position := l.start n + y.ownAt } rest) (s.goOn x rest) :=
    Machine.Passes.onward (e := s.engine) (h.passes_own hfit hw hb hy hclosed hx hp)
  cases hu : y.site.unpatchable with
  | false => exact hplain (.inl hu)
  | true =>
    rcases hs with hidle | ⟨c, hc⟩
    · exact hplain (.inr hidle)
    · obtain ⟨es, below, hes, hes', hlen, hstack⟩ := hwindow hu
      exact (h.passes_own_staged hw hb hy hu hc hes hes' hlen hx hp hstack).onward

/-- **From the start of a block to its instruction** -/
theorem Laid.leads_own (h : l.Laid m') (hfit : l.Fits) (hw : w.Supplies) (hs : s.Steady)
    (hb : l.blocks[n]? = some b) (hx : x.method = m') (hp : x.position = l.start n)
    (hwindow : ∀ y, b.around = some y → y.site.unpatchable = true →
      Windowed w.program s.heap y.shape.window x.stack) :
    Leads w l.Between (s.Onward { x with position := l.start n + b.ownAt } rest) (s.goOn x rest) := by
  cases hy : b.around with
  | none =>
    have hat : b.ownAt = 0 := by
      unfold Block.ownAt
      rw [hy]
    rw [hat, Nat.add_zero, ← hp]
    exact .here ⟨s.engine, rfl⟩
  | some y =>
    rw [Block.ownAt_some hy]
    exact (h.passes_call hfit hb hy hx hp).leads
      (h.leads_call (x := { x with position := _ }) hfit hw hs hb hy hx rfl (hwindow y hy))

end Layout
end Resumable
