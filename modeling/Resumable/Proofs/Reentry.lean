import Resumable.Proofs.Detours
import Resumable.Proofs.Held

/-!
# The way back to a call

An activation that is called again with a saved number goes from the prologue to the site of this number,
restores the level that was saved there, and stands before the call once more.

* `index_of_sites` : sites are numbered in their order;
* `Layout.Laid.passes_number` : from the start of a woven method to the dispatch on the number;
* `Layout.Laid.passes_resume` : on to the place where a site is re-entered;
* `Layout.Laid.passes_restored` : from there to the call;
* `RestoredLocals.reads`, `reads_operandsAgain` : restored locals and operands are what the frame says.
-/

namespace Resumable

/-- sites are numbered in their order -/
theorem index_of_sitesFrom {a : Analysis} {base : UInt32} {index position j : Nat} {is : List Insn}
    {s : Site} (hs : (sitesFrom a base index position is)[j]? = some s) : s.index = index + j := by
  induction is generalizing index position j with
  | nil => exact absurd hs (by simp [sitesFrom])
  | cons i is ih =>
    rw [sitesFrom_cons] at hs
    split at hs
    · split at hs
      · cases j with
        | zero =>
          rw [← Option.some.inj hs]
          rfl
        | succ j =>
          rw [ih (j := j) hs]
          omega
      · exact ih hs
    · exact ih hs

namespace Machine

variable {w : World} {s : Machine} {x : Activation} {rest : List Pending} {stack : List Value}
  {S : Nat → Prop}

/-- a number is taken from the operands to the place in a table that it counts -/
theorem passes_tableSwitch {index k : Nat} {otherwise target : Label} {targets : List Label}
    (hS : S x.position)
    (hcode : x.method.code[x.position]? = some (.tableSwitch 0 otherwise targets))
    (hs : x.stack = .int (Int32.ofNat index) :: stack) (hlt : index < 2 ^ 31)
    (htarget : targets[index]? = some target) (hk : labelPosition target x.method.code = some k) :
    Passes w S (s.goOn x rest) (s.goOn { x with position := k, stack } rest) := by
  have hchosen : tableTarget 0 (Int32.ofNat index) otherwise targets = target := by
    have hzero : (0 : Int32).toInt = 0 := rfl
    have hindex : (Int32.ofNat index).toInt = index := by
      rw [Int32.toInt_ofNat']
      unfold Int32.size
      apply Int.bmod_eq_of_le <;> omega
    unfold tableTarget
    simp only [hzero, hindex, Int.sub_zero, Int.natCast_nonneg, if_true, Int.toNat_natCast, htarget,
      Option.getD_some]
  refine .of_step hS (step_jump (b := { x with stack }) hcode ?_ hk) rfl
  show (Exec.popInt >>= fun n => pure (After.jump (tableTarget 0 n otherwise targets))).run _ = _
  rw [Effect.run_bind_ok (Exec.run_popInt hs), hchosen]
  rfl

/-- **The dispatch** on the number of a reachable site goes to where the site is re-entered -/
theorem passes_dispatch {base : UInt32} {sites : List Site} {site : Site} {k : Nat}
    (hS : S x.position) (hS' : S (x.position + 1))
    (hcode : Holds x.method.code x.position (dispatchCode sites (.ofSites base sites)))
    (hs : x.stack = .int (Int32.ofNat site.index) :: stack) (hlt : site.index < 2 ^ 31)
    (hsite : sites[site.index]? = some site) (hk : labelPosition site.resume x.method.code = some k) :
    Passes w S (s.goOn x rest) (s.goOn { x with position := k, stack } rest) := by
  match sites with
  | [] => exact absurd hsite (by simp)
  | [only] =>
    obtain rfl : only = site := by
      have hindex : site.index = 0 := by
        have := (List.getElem?_eq_some_iff.1 hsite).1
        rw [List.length_singleton] at this
        omega
      rw [hindex] at hsite
      exact Option.some.inj hsite
    have hjump : Passes w S (s.goOn { x with position := x.position + 1, stack } rest) _ :=
      passes_jump hS' hcode.tail.head hk
    exact (Passes.of_step hS (step_next hcode.head (Insn.run_pop hs)) rfl).trans hjump
  | first :: second :: more =>
    have hinvalid : (PrologueLabels.ofSites base (first :: second :: more)).invalid =
        some (freshLabel base ((first :: second :: more).length + 2)) := by
      simp [PrologueLabels.ofSites, mayMisdispatch]
    unfold dispatchCode at hcode
    rw [hinvalid] at hcode
    refine passes_tableSwitch hS hcode.head hs hlt ?_ hk
    rw [List.getElem?_map, hsite]
    rfl

end Machine

namespace Layout

variable {a : Analysis} {m m' : Method} {l : Layout a m} {w : World} {s : Machine} {x : Activation}
  {rest : List Pending} {n : Nat} {b : Block} {y : Around}

theorem getElem?_sites {site : Site} (hs : site ∈ l.sites) : l.sites[site.index]? = some site := by
  obtain ⟨j, hj⟩ := List.mem_iff_getElem?.1 hs
  have hindex := index_of_sitesFrom hj
  rwa [hindex, Nat.zero_add]

/-- the prologue takes the number that was saved last, and stands before the dispatch -/
theorem Laid.passes_number (h : l.Laid m') (hw : w.Supplies) {c : Coroutine Call Call} {states : List Int32}
    {v : Int32} (hc : s.engine.Runs c) (hstates : c.states = v :: states) (hneg : ¬ v < 0)
    (hx : x.method = m') (hp : x.position = 0) :
    Machine.Passes w l.Between (s.goOn x rest) ((s.put { c with states }).goOn
      { x with position := 5, stack := .int v :: x.stack } rest) ∧
      Holds m'.code 5 (dispatchCode l.sites l.labels) ∧ l.Between 5 ∧ l.Between 6 := by
  have hcode := h.holds_prologue
  rw [prologue_eq] at hcode
  have hS : ∀ q, q < 8 → l.Between q := fun q hq => between_of_lt_start (by
    rw [start_zero, entrance, List.length_append, List.length_append]
    exact Nat.lt_of_lt_of_le hq (Nat.add_le_add_right (Nat.le_add_right_of_le (Nat.le_add_right 5 _)) 3))
  have hguard : Holds m'.code 0 ([Intrinsic.exists.call, .branch .eq l.labels.body,
      Intrinsic.popState.call, .dup] ++ [.branch .lt l.labels.noState]) := hcode.left.left.left
  have hpop : c.popState = (v, { c with states }) := by
    unfold Coroutine.popState
    rw [hstates]
  have hasks : Takes w s.heap [Intrinsic.exists.call, .branch .eq l.labels.body, Intrinsic.popState.call, .dup]
      ⟨c, x.locals, x.stack⟩ ⟨{ c with states }, x.locals, _⟩ := .askState hw hpop rfl
  have hasked := hasks.passes rest (S := l.Between)
    (fun i hi => hS _ (by rw [hp]; change i < 4 at hi; omega)) rfl hc rfl rfl (by rw [hx, hp]; exact hguard.left)
  have hstart : x.behind [Intrinsic.exists.call, .branch .eq l.labels.body, Intrinsic.popState.call, .dup]
      x.locals (.int v :: .int v :: x.stack) =
      { x with position := 4, stack := .int v :: .int v :: x.stack } := by
    unfold Activation.behind
    rw [hp]
    rfl
  rw [hstart] at hasked
  have hstays : Machine.Passes w l.Between
      ((s.put { c with states }).goOn { x with position := 4, stack := .int v :: .int v :: x.stack } rest)
      ((s.put { c with states }).goOn { x with position := 5, stack := .int v :: x.stack } rest) := by
    refine .of_step (hS 4 (by decide)) (Machine.step_next (b := { x with position := 4, stack := .int v :: x.stack })
      (by rw [show x.method = m' from hx]; exact hguard.right.head) ?_) rfl
    have hnot : Cond.lt.test v 0 = false := by simpa [Cond.test] using hneg
    rw [Insn.run_branch rfl, hnot]
    rfl
  exact ⟨hasked.trans hstays, hcode.left.left.right, hS 5 (by decide), hS 6 (by decide)⟩

/-- **The prologue** goes on to the site whose number was saved -/
theorem Laid.passes_resume (h : l.Laid m') (hfit : l.Fits) (hw : w.Supplies)
    (hb : l.blocks[n]? = some b) (hy : b.around = some y) (hsites : l.sites.length ≤ 2 ^ 31)
    {c : Coroutine Call Call} {states : List Int32} (hc : s.engine.Runs c)
    (hstates : c.states = Int32.ofNat y.site.index :: states) (hx : x.method = m')
    (hp : x.position = 0) :
    Machine.Passes w l.Between (s.goOn x rest)
      ((s.put { c with states }).goOn { x with position := l.start n + 2 } rest) := by
  obtain ⟨hmem, -⟩ := h.site_of_around hb hy
  have hsite := getElem?_sites hmem
  have hlt : y.site.index < 2 ^ 31 :=
    Nat.lt_of_lt_of_le (List.getElem?_eq_some_iff.1 hsite).1 hsites
  obtain ⟨hasked, hdispatch, h5, h6⟩ := h.passes_number hw hc hstates (not_ofNat_neg hlt) hx hp
  refine hasked.trans ?_
  exact Machine.passes_dispatch
    (x := { x with position := 5, stack := .int (Int32.ofNat y.site.index) :: x.stack }) h5 h6
    (by rw [show x.method = m' from hx]; exact hdispatch) rfl hlt hsite
    (by rw [show x.method = m' from hx]; exact (h.found hfit hb hy).resume)

/-- the blocks of a site stand where its block starts -/
theorem Laid.holds_places (h : l.Laid m') (hb : l.blocks[n]? = some b) (hy : b.around = some y) :
    (Places.ofStart y.site y.frame y.shape y.labels (l.start n)).Holds m'.code a l.ret y.site y.frame
      y.shape y.labels.staged := by
  have hblock := h.holds hb
  obtain ⟨around, own⟩ := b
  obtain rfl : around = some y := hy
  exact Places.holds_ofStart own hblock

/-- **The level of a site** is restored, and the call stands next -/
theorem Laid.passes_restored (h : l.Laid m') (hw : w.Supplies)
    (hb : l.blocks[n]? = some b) (hy : b.around = some y) {d : LevelData} {N : Nat}
    (hd : d.Ok w.program s.heap a y.site y.frame y.shape) (hcuts : y.shape.Cuts y.frame)
    (hsound : y.frame.Sound N) (hslots : y.frame.locals.length ≤ 65536) {c : Coroutine Call Call}
    (hc : s.engine.Runs c) (hstorage : c.storage = d.saved y.site y.frame y.shape) (hx : x.method = m')
    (hp : x.position = l.start n + 2) (hstack : x.stack = [])
    (hlen : y.frame.locals.length ≤ x.locals.length) :
    ∃ b locals, Machine.Passes w l.Between (s.goOn x rest) ((s.put (c.stores d.storage b)).goOn
        { x with
          position := l.start n + (3 + (restoreCode y.site.unpatchable y.frame y.shape).length)
          locals
          stack := operandsAgain y.site y.shape d.window d.companion ++ d.below } rest) ∧
      RestoredLocals y.frame d.locals x.locals locals ∧
      (y.site.unpatchable = false → y.shape.hasReceiver = true → b = false) := by
  obtain ⟨hstand, -⟩ := h.stand hb hy
  obtain ⟨hown, hafter, hno, -⟩ := y.places a l.ret
  have hS : ∀ j, j < y.ownAt → l.Between (l.start n + j) := fun j hj =>
    h.between_around hb hy (by omega) (by omega)
  have hlabel : Machine.Passes w l.Between (s.goOn x rest)
      (s.goOn { x with position := l.start n + 2 + 1 } rest) := by
    rw [← hp]
    exact Machine.passes_label (by rw [hp]; exact hS 2 (by omega))
      (by rw [hx, hp]; exact hstand.resume.head)
  obtain ⟨b', locals, hpasses, hrestored, hmark⟩ := hd.passes_restored
    (x := { x with position := l.start n + 2 + 1 }) (S := l.Between) hw hcuts hsound hslots
    (h.holds_places hb hy) rest
    (fun i hi => by
      rw [show (Places.ofStart y.site y.frame y.shape y.labels (l.start n)).restore + i =
        l.start n + (3 + i) from Nat.add_assoc _ 3 i]
      exact hS _ (by omega))
    (fun _ _ => rfl) (fun _ _ => rfl) hc hstorage hx rfl hstack hlen
  refine ⟨b', locals, hlabel.trans ?_, hrestored, hmark⟩
  rw [← Nat.add_assoc]
  exact hpasses

end Layout

/-! ## values that are restored -/

section
open Category (Reading)

variable {R : Category → Value → Prop} {f g : Frame} {saved start locals : List Value} {site : Site}
  {shape : CallShape} {window : List Value} {companion : Option Ref}

/-- the receiver of a call comes first -/
theorem reads_receiver {r : Category} (hwindow : List.Forall₂ R shape.window window)
    (hr : shape.receiver = some r) : ∃ v, window.head? = some v ∧ R r v := by
  have hhead : shape.window.head? = some r := by
    unfold CallShape.receiver at hr
    split at hr
    · exact hr
    · exact absurd hr (by simp)
  generalize shape.window = cs at hwindow hhead
  cases hwindow with
  | nil => exact absurd hhead (by simp)
  | cons hv _ =>
    obtain rfl := Option.some.inj hhead
    exact ⟨_, rfl, hv⟩

variable [Reading R]

/-- of restored locals a frame says what it says of the saved ones -/
theorem RestoredLocals.reads (hrestored : RestoredLocals g saved start locals) (hhinted : f.Hinted g)
    (hlen : f.locals.length = start.length) (hsaved : List.Forall₂ R f.locals saved) :
    List.Forall₂ R f.locals locals := by
  obtain ⟨-, hall⟩ := Frame.forall₂_iff.1 hsaved
  refine Frame.forall₂_iff.2 ⟨hlen.trans hrestored.length.symm, fun i c v hc hv => ?_⟩
  cases hk : c.kind? with
  | none => exact Reading.free hk
  | some k =>
    obtain ⟨d, hd, hcd⟩ := hhinted.hint hc
    have hsame := hrestored.live i d k hd (hcd.kind.trans hk)
    rw [Nat.zero_add, hv] at hsame
    exact hall i c v hc hsame.symm

/-- zeros are what the categories say that they stand for -/
theorem reads_zerosOf {cs : List Category} (hcs : ∀ c ∈ cs, ∃ k, c.kind? = some k) :
    List.Forall₂ R cs (zerosOf cs) := by
  induction cs with
  | nil => exact .nil
  | cons c cs ih =>
    obtain ⟨k, hk⟩ := hcs c List.mem_cons_self
    have hzeros : zerosOf (c :: cs) = .zero k :: zerosOf cs := by simp [zerosOf, hk]
    rw [hzeros]
    exact .cons (Category.reads_zero hk) (ih fun d hd => hcs d (List.mem_cons_of_mem _ hd))

/-- the receiver that a callee has left, with zeros for the arguments -/
theorem reads_again (hcuts : shape.Cuts f) (hloaded : f.Loaded)
    (hreceiver : ∀ r, shape.receiver = some r → R r (.ref companion)) :
    List.Forall₂ R shape.window
      ((if shape.hasReceiver then [.ref companion] else []) ++ zerosOf shape.args) := by
  have hsplit := Takes.receiver_append_args shape
  have hargs : List.Forall₂ R shape.args (zerosOf shape.args) := reads_zerosOf fun c hc =>
    hcuts.window_kind hloaded c (by rw [← hsplit]; exact List.mem_append_right _ hc)
  have hback : List.Forall₂ R shape.receiver.toList (if shape.hasReceiver then [.ref companion] else []) := by
    rw [← hcuts.receiver]
    cases hr : shape.receiver with
    | none => exact .nil
    | some r => exact .cons (hreceiver r hr) .nil
  rw [← hsplit]
  exact List.rel_append hback hargs

/-- **The operands with which a call is made again** are what the frame says of them -/
theorem reads_operandsAgain (hcuts : shape.Cuts f) (hloaded : f.Loaded)
    (hwindow : List.Forall₂ R shape.window window)
    (hreceiver : site.unpatchable = false → shape.hasReceiver = true →
      window.head? = some (.ref companion)) :
    List.Forall₂ R shape.window.reverse (operandsAgain site shape window companion) := by
  unfold operandsAgain
  cases hu : site.unpatchable with
  | true =>
    rw [if_pos rfl]
    exact List.rel_reverse hwindow
  | false =>
    have hself : ∀ r, shape.receiver = some r → R r (.ref companion) := by
      intro r hr
      obtain ⟨v, hhead, hv⟩ := reads_receiver hwindow hr
      obtain rfl := Option.some.inj (hhead.symm.trans (hreceiver hu (by rw [← hcuts.receiver, hr]; rfl)))
      exact hv
    have hreverse := List.rel_reverse (reads_again hcuts hloaded hself)
    rw [List.reverse_append] at hreverse
    rw [if_neg (by simp)]
    split at hreverse
    · rename_i hr
      rw [if_pos hr]
      exact hreverse
    · rename_i hr
      rw [if_neg hr]
      exact hreverse

end

end Resumable
