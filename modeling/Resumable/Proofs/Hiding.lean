import Resumable.Proofs.Footprint
import Resumable.Proofs.Running
import Resumable.Proofs.Staging

/-!
# What a program does not see

While woven code runs, the coroutine may have staging frames that the program knows nothing about.
Built-in methods other than those of storage, positions and staging do not see them either, as long
as nothing is suspended.

* `Engine.Fresh` : at most one coroutine runs, with nothing saved and nothing being suspended;
* `Hides` : an engine and the same engine with staging frames;
* `Performing.Follows`, `Native.follows` : built-in methods on both.
-/

namespace Resumable

/-- what a coroutine has saved -/
structure Savings where
  id : Nat
  states : List Int32
  storage : Storage
  staging : Storage
  floors : List Depths

namespace Coroutine

variable {β κ : Type}

def savings (c : Coroutine β κ) : Savings := ⟨c.id, c.states, c.storage, c.staging, c.floors⟩

/-- the coroutine with open staging frames, the innermost first, and with a mark -/
def veiled (c : Coroutine β κ) (frames : List (List Value)) (mark : Bool) : Coroutine β κ :=
  frames.foldr (fun vs c => c.opening vs) { c with companionOnTop := mark }

theorem veiled_nil (c : Coroutine β κ) : c.veiled [] c.companionOnTop = c := rfl

theorem veiled_cons (c : Coroutine β κ) (vs : List Value) (frames : List (List Value)) (mark : Bool) :
    c.veiled (vs :: frames) mark = (c.veiled frames mark).opening vs := rfl

/-- only staging and the mark are different -/
theorem veiled_eq (c : Coroutine β κ) (frames : List (List Value)) (mark : Bool) :
    c.veiled frames mark = { c with
      staging := (c.veiled frames mark).staging, floors := (c.veiled frames mark).floors
      companionOnTop := mark } := by
  induction frames with
  | nil => rfl
  | cons vs frames ih =>
    rw [veiled_cons]
    conv => lhs; rw [ih]
    rfl

theorem id_veiled (c : Coroutine β κ) (frames : List (List Value)) (mark : Bool) :
    (c.veiled frames mark).id = c.id := by rw [veiled_eq]

/-- a call of a pending yield ends in the same way -/
theorem veiled_passed (c : Coroutine β κ) (frames : List (List Value)) (mark : Bool) :
    ({ c with yieldPending := false } : Coroutine β κ).veiled frames mark =
      { c.veiled frames mark with yieldPending := false } := by
  induction frames with
  | nil => rfl
  | cons vs frames ih =>
    rw [veiled_cons, veiled_cons, ih]
    rfl

end Coroutine

namespace Engine

variable {β κ : Type}

/-- every coroutine carries the number under which it is found -/
def Numbered (e : Engine β κ) : Prop := ∀ n c, e.get? n = some c → c.id = n

/-- at most one coroutine runs, with nothing saved and nothing being suspended -/
def Fresh (e : Engine β κ) : Prop :=
  e.active = [] ∨ ∃ c, e.Runs c ∧ e.active = [c.id] ∧ c.states = [] ∧ c.yielding = false

section
variable {e : Engine β κ} {c d : Coroutine β κ} {body : β}

theorem Runs.active_ne (h : e.Runs c) : e.active ≠ [] := by
  intro hidle
  have hc := h.current
  rw [currentId?, hidle] at hc
  exact absurd hc (by simp)

theorem Runs.unique (h : e.Runs c) (h' : e.Runs d) : d = c := by
  have hid : d.id = c.id := Option.some.inj (h'.current.symm.trans h.current)
  have hfound := h'.found
  rw [hid] at hfound
  exact Option.some.inj (hfound.symm.trans h.found)

theorem Runs.fresh (h : e.Runs c) (hf : e.Fresh) :
    e.active = [c.id] ∧ c.states = [] ∧ c.yielding = false := by
  rcases hf with hidle | ⟨d, hd, hactive, hstates, hyielding⟩
  · exact absurd hidle h.active_ne
  · obtain rfl := h.unique hd
    exact ⟨hactive, hstates, hyielding⟩

theorem Numbered.put (h : e.Numbered) (c : Coroutine β κ) (hc : 0 < c.id) : (e.put c).Numbered := by
  intro n d hd
  by_cases hn : n = c.id
  · subst hn
    cases hget : e.get? c.id with
    | some b =>
      rw [get?_put_self hget] at hd
      rw [Option.some.inj hd]
    | none =>
      have hsame : (e.put c).get? c.id = e.get? c.id := by
        rw [get?_of_pos hc] at hget
        rw [get?_of_pos hc, get?_of_pos hc]
        show (e.coroutines.setIfInBounds (c.id - 1) c)[c.id - 1]? = _
        rw [Array.getElem?_setIfInBounds, if_pos rfl, hget, if_neg]
        exact Nat.not_lt.2 (Array.getElem?_eq_none_iff.1 hget)
      rw [hsame, hget] at hd
      exact absurd hd (by simp)
  · rw [get?_put_of_ne hc hn] at hd
    exact h n d hd

theorem put_comm (hc : 0 < c.id) (hd : 0 < d.id) (h : c.id ≠ d.id) :
    (e.put c).put d = (e.put d).put c := by
  simp only [put]
  congr 1
  apply Array.ext_getElem?
  intro i
  simp only [Array.getElem?_setIfInBounds]
  grind

/-- a new coroutine is found behind the others -/
theorem get?_create (e : Engine β κ) (body : β) (n : Nat) :
    (e.create body).2.get? n = if n = e.coroutines.size + 1 then
      some (Coroutine.create (e.coroutines.size + 1) body) else e.get? n := by
  cases n with
  | zero => rfl
  | succ n =>
    show (e.coroutines.push _)[n]? = _
    rw [Array.getElem?_push]
    simp only [Nat.add_right_cancel_iff]
    rfl

theorem Numbered.create (h : e.Numbered) (body : β) : (e.create body).2.Numbered := by
  intro n c hc
  rw [get?_create] at hc
  split at hc
  · rename_i hn
    rw [hn, ← Option.some.inj hc]
    rfl
  · exact h n c hc

theorem Runs.create (h : e.Runs c) (body : β) : (e.create body).2.Runs c := by
  refine ⟨h.current, ?_⟩
  rw [get?_create, if_neg, h.found]
  intro hid
  have hfound := h.found
  rw [hid, get?_of_pos (by omega)] at hfound
  have := (Array.getElem?_eq_some_iff.1 hfound).1
  omega

theorem create_put (hc : e.get? c.id = some d) (body : β) :
    (e.put c).create body = ((e.create body).1, (e.create body).2.put c) := by
  have hpos := pos_of_get? hc
  rw [get?_of_pos hpos] at hc
  have hlt : c.id - 1 < e.coroutines.size := (Array.getElem?_eq_some_iff.1 hc).1
  simp only [Engine.create, put, Array.size_setIfInBounds]
  congr 2
  apply Array.ext_getElem?
  intro i
  simp only [Array.getElem?_push, Array.getElem?_setIfInBounds, Array.size_push,
    Array.size_setIfInBounds]
  grind

end

end Engine

/-! ## engines with and without staging frames -/

/-- how a veiled engine may be different besides its staging frames -/
structure Veil where
  /-- the mark of the running coroutine, if it is one of its own -/
  mark : Option Bool
  /-- what the coroutine that runs from the beginning to the end has saved -/
  kept : Option Savings

/-- the second engine is the first one with staging frames of the running coroutine -/
inductive Hides (v : Veil) (frames : List (List Value)) (e e' : Engine Call Call) : Prop
  | idle (active : e.active = []) (closed : frames = []) (mark : v.mark = none)
      (kept : v.kept = none) (numbered : e.Numbered) (same : e' = e)
  | running {c : Coroutine Call Call} (runs : e.Runs c) (active : e.active = [c.id])
      (kept : ∀ s, v.kept = some s → c.savings = s) (numbered : e.Numbered)
      (put : e' = e.put (c.veiled frames (v.mark.getD c.companionOnTop)))

namespace Hides

variable {v : Veil} {frames : List (List Value)} {e e' : Engine Call Call}

theorem active (h : Hides v frames e e') : e'.active = e.active := by
  cases h with
  | idle _ _ _ _ _ same => rw [same]
  | running runs active kept numbered put => rw [put, Engine.active_put]

theorem exists_eq (h : Hides v frames e e') : e'.exists = e.exists := by
  unfold Engine.exists
  rw [h.active]

theorem currentId?_eq (h : Hides v frames e e') : e'.currentId? = e.currentId? := by
  unfold Engine.currentId?
  rw [h.active]

/-- the running coroutine with its staging frames -/
theorem runs_put {c : Coroutine Call Call} (h : e.Runs c) (frames : List (List Value)) (mark : Bool) :
    (e.put (c.veiled frames mark)).Runs (c.veiled frames mark) :=
  h.put (c.id_veiled frames mark)

theorem isYielding_eq (h : Hides v frames e e') : e'.isYielding = e.isYielding := by
  cases h with
  | idle _ _ _ _ _ same => rw [same]
  | running runs active kept numbered put =>
    rw [put, (runs_put runs _ _).isYielding_eq, runs.isYielding_eq, Coroutine.veiled_eq]

theorem isDone_eq (h : Hides v frames e e') (id : Nat) :
    (e'.get? id).any Coroutine.isDone = (e.get? id).any Coroutine.isDone := by
  cases h with
  | idle _ _ _ _ _ same => rw [same]
  | @running c runs active kept numbered put =>
    rw [put]
    by_cases hid : id = c.id
    · subst hid
      have hfound := (runs_put runs frames (v.mark.getD c.companionOnTop)).found
      rw [Coroutine.id_veiled] at hfound
      rw [hfound, runs.found, Coroutine.veiled_eq]
      rfl
    · have hpos := Engine.pos_of_get? runs.found
      rw [Engine.get?_put_of_ne (by rw [Coroutine.id_veiled]; exact hpos)
        (by rw [Coroutine.id_veiled]; exact hid)]

/-- two operations end in the same way, and the second engine stays the veiled one -/
def Agrees {α : Type} (v : Veil) (frames : List (List Value))
    (x x' : Except Violation α × Engine Call Call) : Prop :=
  x'.1 = x.1 ∧ (x.2.Fresh → (∃ a, x.1 = .ok a) → Hides v frames x.2 x'.2)

theorem create (h : Hides v frames e e') (body : Call) :
    Agrees v frames (Except.ok (e.create body).1, (e.create body).2)
      (Except.ok (e'.create body).1, (e'.create body).2) := by
  cases h with
  | idle active closed mark kept numbered same =>
    subst same
    exact ⟨rfl, fun _ _ => .idle active closed mark kept (numbered.create body) rfl⟩
  | @running c runs active kept numbered put =>
    have hput := Engine.create_put (c := c.veiled frames (v.mark.getD c.companionOnTop)) (d := c)
      (by rw [Coroutine.id_veiled]; exact runs.found) body
    rw [put, hput]
    exact ⟨rfl, fun _ _ => .running (runs.create body) active kept (numbered.create body) rfl⟩

/-- an operation of a coroutine that does not run -/
theorem on_other {α : Type} {c : Coroutine Call Call} {d : Coroutine Call Call} {id : Nat}
    {op : Coroutine Call Call → Coroutine.Outcome Call Call α} (hop : ∀ b, (op b).2.id = b.id)
    (hd : d.id = c.id) (hruns : e.Runs c) (hnumbered : e.Numbered) (hid : id ≠ c.id) :
    ((e.put d).on id op).1 = (e.on id op).1 ∧
      ((e.put d).on id op).2 = (e.on id op).2.put d ∧ (e.on id op).2.Runs c ∧
      (e.on id op).2.Numbered := by
  have hpos := Engine.pos_of_get? hruns.found
  have hget : (e.put d).get? id = e.get? id :=
    Engine.get?_put_of_ne (by rw [hd]; exact hpos) (by rw [hd]; exact hid)
  unfold Engine.on
  rw [hget]
  cases hb : e.get? id with
  | none => exact ⟨rfl, rfl, hruns, hnumbered⟩
  | some b =>
    have hbid := hnumbered id b hb
    have hopid : (op b).2.id = id := by rw [hop, hbid]
    have hbpos : 0 < (op b).2.id := by rw [hopid]; exact Engine.pos_of_get? hb
    refine ⟨rfl, ?_, ⟨hruns.current, ?_⟩, hnumbered.put _ hbpos⟩
    · exact Engine.put_comm (by rw [hd]; exact hpos) hbpos (by rw [hd, hopid]; exact hid.symm)
    · show (e.put (op b).2).get? c.id = some c
      rw [Engine.get?_put_of_ne hbpos (by rw [hopid]; exact hid.symm)]
      exact hruns.found

/-- a call of yield that suspends nothing -/
theorem yield (h : Hides v frames e e') (id : Nat) (deferred : Option Call) :
    Agrees v frames (e.on id fun c => c.yield deferred) (e'.on id fun c => c.yield deferred) := by
  have hop (b : Coroutine Call Call) : (b.yield deferred).2.id = b.id := by
    unfold Coroutine.yield
    split
    · rfl
    · split
      · rfl
      · split <;> rfl
  cases h with
  | idle active closed mark kept numbered same =>
    subst same
    refine ⟨rfl, fun _ _ => .idle ?_ closed mark kept ?_ rfl⟩
    · unfold Engine.on
      split <;> exact active
    · unfold Engine.on
      split
      · rename_i b hb
        refine numbered.put _ ?_
        rw [hop, numbered id b hb]
        exact Engine.pos_of_get? hb
      · exact numbered
  | @running c runs active kept numbered put =>
    generalize hmark : v.mark.getD c.companionOnTop = mark at put
    subst put
    by_cases hid : id = c.id
    · subst hid
      have hfound := (runs_put runs frames mark).found
      rw [Coroutine.id_veiled] at hfound
      have hput : (e.put (c.veiled frames mark)).on c.id (fun c => c.yield deferred) =
          (((c.veiled frames mark).yield deferred).1,
            e.put ((c.veiled frames mark).yield deferred).2) := by
        unfold Engine.on
        rw [hfound]
        exact Prod.ext rfl (Engine.put_put _ (hop _).symm)
      have hown : e.on c.id (fun c => c.yield deferred) =
          ((c.yield deferred).1, e.put (c.yield deferred).2) := by
        unfold Engine.on
        rw [runs.found]
      rw [hput, hown]
      have hlike := c.veiled_eq frames mark
      by_cases hpending : c.yieldPending = true
      · have hyield : c.yield deferred = (.ok (), { c with yieldPending := false }) := by
          unfold Coroutine.yield
          rw [if_pos hpending]
        have hyield' : (c.veiled frames mark).yield deferred =
            (.ok (), { c.veiled frames mark with yieldPending := false }) := by
          unfold Coroutine.yield
          rw [if_pos (by rw [hlike]; exact hpending)]
        rw [hyield, hyield', ← Coroutine.veiled_passed]
        refine ⟨rfl, fun _ _ => .running (c := { c with yieldPending := false }) (runs.put rfl)
          active kept (numbered.put _ (Engine.pos_of_get? runs.found)) ?_⟩
        dsimp only
        rw [Engine.put_put _ (Coroutine.id_veiled _ _ _).symm, hmark]
      · have hsame : ((c.veiled frames mark).yield deferred).1 = (c.yield deferred).1 := by
          unfold Coroutine.yield
          rw [hlike]
          dsimp only
          rw [if_neg hpending, if_neg hpending]
          split
          · rfl
          · split <;> rfl
        refine ⟨hsame, fun hfresh hok => ?_⟩
        -- the coroutine is being suspended now
        have hyielding : (c.yield deferred).2.yielding = true := by
          obtain ⟨_, hok⟩ := hok
          unfold Coroutine.yield at hok ⊢
          rw [if_neg hpending] at hok ⊢
          split at hok
          · exact absurd hok (by simp)
          · rename_i hstatus
            split at hok
            · exact absurd hok (by simp)
            · rename_i hyielding
              rw [if_neg hstatus, if_neg hyielding]
        exact absurd ((runs.put (hop c)).fresh hfresh).2.2 (by rw [hyielding]; simp)
    · obtain ⟨h1, h2, h3, h4⟩ := on_other hop (Coroutine.id_veiled c frames mark) runs numbered hid
      refine ⟨h1, fun _ _ => .running h3 ?_ kept h4 (by rw [h2, hmark])⟩
      rw [← active]
      unfold Engine.on
      split <;> rfl

/-- the number of a coroutine stays the same when a run begins -/
theorem id_beginRun (b : Coroutine Call Call) : b.beginRun.2.id = b.id := by
  have htake (c : Coroutine Call Call) : c.takeBody.2.id = c.id := by
    unfold Coroutine.takeBody
    split <;> rfl
  unfold Coroutine.beginRun
  split
  · rfl
  · rfl
  · exact htake b
  · split
    · exact htake _
    · rfl

/-- a run begins in the same way -/
theorem beginRun_veiled (c : Coroutine Call Call) (frames : List (List Value)) (mark : Bool) :
    (c.veiled frames mark).beginRun.1 = c.beginRun.1 := by
  have htake (c d : Coroutine Call Call) (hbody : d.body = c.body) (hid : d.id = c.id) :
      d.takeBody.1 = c.takeBody.1 := by
    unfold Coroutine.takeBody
    rw [hbody, hid]
    split <;> rfl
  rw [Coroutine.veiled_eq]
  unfold Coroutine.beginRun
  dsimp only
  split
  · rfl
  · rfl
  · exact htake _ _ rfl rfl
  · split
    · exact htake _ _ rfl rfl
    · rfl

theorem enter_eq (e : Engine Call Call) (id : Nat) :
    (e.enter id).1 = (e.on id Coroutine.beginRun).1 ∧
      (∀ b, (e.enter id).1 = .ok b → (e.enter id).2 =
        { (e.on id Coroutine.beginRun).2 with
          active := id :: (e.on id Coroutine.beginRun).2.active }) := by
  unfold Engine.enter
  split
  · rename_i hon
    rw [hon]
    exact ⟨rfl, fun _ _ => rfl⟩
  · rename_i hon
    rw [hon]
    exact ⟨rfl, fun _ hb => absurd hb (by simp)⟩

/-- a coroutine that runs alone was resumed where none ran -/
theorem idle_of_enter {id : Nat} {b : Call} (hok : (e.enter id).1 = .ok b)
    (hfresh : (e.enter id).2.Fresh) : e.active = [] := by
  have heq := (enter_eq e id).2 b hok
  have hactive : (e.enter id).2.active = id :: e.active := by rw [heq, ← Engine.active_on e id]
  rcases hfresh with hnil | ⟨c, -, hone, -, -⟩
  · exact absurd hnil (by rw [hactive]; simp)
  · rw [hactive] at hone
    exact (List.cons.inj hone).2

/-- a coroutine is resumed -/
theorem enter (h : Hides v frames e e') (id : Nat) : Agrees v frames (e.enter id) (e'.enter id) := by
  obtain ⟨hfirst, hsecond⟩ := enter_eq e id
  cases h with
  | idle active closed mark kept numbered same =>
    subst same
    refine ⟨rfl, fun hfresh hok => ?_⟩
    obtain ⟨b, hok⟩ := hok
    have heq := hsecond b hok
    rw [hfirst] at hok
    unfold Engine.on at hok heq
    cases hget : e'.get? id with
    | none =>
      rw [hget] at hok
      exact absurd hok (by simp)
    | some c =>
      rw [hget] at hok heq
      dsimp only at hok heq
      have hid : c.beginRun.2.id = id := by rw [id_beginRun, numbered id c hget]
      have hpos := Engine.pos_of_get? hget
      have hruns : (e'.enter id).2.Runs c.beginRun.2 := by
        rw [heq]
        refine ⟨by rw [hid]; rfl, ?_⟩
        show (e'.put c.beginRun.2).get? _ = _
        exact Engine.get?_put_self (d := c) (by rw [hid]; exact hget)
      subst closed
      refine .running hruns ?_ (by rw [kept]; simp) ?_ ?_
      · rw [heq, hid, Engine.active_put, active]
      · rw [heq]
        exact numbered.put _ (by rw [hid]; exact hpos)
      · rw [mark, Option.getD_none, Coroutine.veiled_nil, hruns.put_eq]
  | @running c runs active kept numbered put =>
    subst put
    refine ⟨?_, fun hfresh hok => ?_⟩
    · rw [hfirst, (enter_eq _ id).1]
      by_cases hid : id = c.id
      · subst hid
        have hfound := (runs_put runs frames (v.mark.getD c.companionOnTop)).found
        rw [Coroutine.id_veiled] at hfound
        unfold Engine.on
        rw [hfound, runs.found]
        exact beginRun_veiled c frames _
      · exact (on_other id_beginRun (Coroutine.id_veiled c frames _) runs numbered hid).1
    · obtain ⟨b, hok⟩ := hok
      exact absurd (idle_of_enter hok hfresh) (by rw [active]; simp)

/-! ## staging frames -/

theorem runs (h : Hides v frames e e') (hactive : e.active ≠ []) : ∃ c, e'.Runs c := by
  cases h with
  | idle active _ _ _ _ _ => exact absurd active hactive
  | running runs active kept numbered put => exact ⟨_, put ▸ runs_put runs _ _⟩

/-- where no coroutine runs, there are no staging frames -/
theorem closed (h : Hides v frames e e') (hactive : e.active = []) : frames = [] := by
  cases h with
  | idle _ closed _ _ _ _ => exact closed
  | running runs active kept numbered put => exact absurd hactive runs.active_ne

/-- one more staging frame -/
theorem opening {c : Coroutine Call Call} (h : Hides v frames e e') (hc : e'.Runs c)
    (vs : List Value) : Hides v (vs :: frames) e (e'.put (c.opening vs)) := by
  cases h with
  | idle active _ _ _ _ same => exact absurd (same ▸ active) hc.active_ne
  | @running d runs active kept numbered put =>
    subst put
    obtain rfl := (runs_put runs _ _).unique hc
    refine .running runs active kept numbered ?_
    rw [Engine.put_put, Coroutine.veiled_cons]
    rfl

/-- one staging frame less -/
theorem closing {vs : List Value} (h : Hides v (vs :: frames) e e') :
    ∃ c, e'.Runs (c.opening vs) ∧ Hides v frames e (e'.put c) ∧
      (e.Fresh → c.yielding = false) := by
  cases h with
  | idle _ closed _ _ _ _ => exact absurd closed (by simp)
  | @running d runs active kept numbered put =>
    subst put
    refine ⟨d.veiled frames (v.mark.getD d.companionOnTop), runs_put runs _ _, ?_, fun hfresh => ?_⟩
    · rw [Engine.put_put _ (by rw [Coroutine.id_veiled, Coroutine.id_veiled])]
      exact .running runs active kept numbered rfl
    · rw [Coroutine.veiled_eq]
      exact (runs.fresh hfresh).2.2

/-- nothing is saved for an activation that starts -/
theorem entered (h : Hides v frames e e') (hf : e.Fresh) :
    e'.active = [] ∨ ∃ c, e'.Runs c ∧ c.states = [] := by
  cases h with
  | idle active _ _ _ _ same => exact .inl (same ▸ active)
  | @running d runs active kept numbered put =>
    refine .inr ⟨_, put ▸ runs_put runs _ _, ?_⟩
    rw [Coroutine.veiled_eq]
    exact (runs.fresh hf).2.1

/-- nothing is being suspended -/
theorem settled (h : Hides v frames e e') (hf : e.Fresh) : e'.isYielding = false := by
  rw [h.isYielding_eq]
  rcases hf with hidle | ⟨c, hc, -, -, hyielding⟩
  · exact Engine.isYielding_of_active_nil hidle
  · rw [hc.isYielding_eq, hyielding]

end Hides
end Resumable
