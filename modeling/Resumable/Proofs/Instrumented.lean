import Resumable.Proofs.Atomicity
import Resumable.Proofs.Handlers
import Resumable.Machine.Step

/-!
# Instrumented programs

An instrumented program has the same classes under the same names, with the same superclasses and
interfaces; each method is kept or woven.  So both programs agree in which type may stand for which,
and a call finds in one of them what it finds in the other.

* `Instrumented` : a method and what became of it;
* `Rewritten`, `instrument_ok` : a program and what became of it;
* `Rewritten.isAssignable`, `Rewritten.resolve` : the hierarchy and calls.
-/

namespace Resumable

/-- a method of a class and what became of it -/
inductive Instrumented (p : Program) (t : RestoreTable) (owner : String) (m : Method) :
    Method → Prop
  | kept : Instrumented p t owner m m
  | woven {a : Analysis} {m' : Method} (analyzed : Analysis.ofTable? p t owner m = .ok (some a))
      (weaves : weaveMethod a m = .ok m') : Instrumented p t owner m m'

/-- a class and what became of it -/
structure ClassDef.Rewritten (p : Program) (t : RestoreTable) (c c' : ClassDef) : Prop where
  name : c'.name = c.name
  superName : c'.superName = c.superName
  interfaces : c'.interfaces = c.interfaces
  missing : ∀ name desc, c.method? name desc = none → c'.method? name desc = none
  method : ∀ name desc m, c.method? name desc = some m →
    ∃ m', c'.method? name desc = some m' ∧ Instrumented p t c.name m m'

/-- a program and what became of it -/
structure Rewritten (p : Program) (t : RestoreTable) (p' : Program) : Prop where
  classes : ∃ f : ClassDef → ClassDef, p'.classes = p.classes.map (fun e => (e.1, f e.2)) ∧
    ∀ e ∈ p.classes, ClassDef.Rewritten p t e.2 (f e.2)
  keys : ∀ e ∈ p.classes, e.1 = e.2.name

section
variable {p : Program} {t : RestoreTable} {owner : String}

/-! ## methods and classes -/

/-- weaving keeps what a method is found by -/
theorem Instrumented.same {m m' : Method} (h : Instrumented p t owner m m') :
    m'.name = m.name ∧ m'.desc = m.desc ∧ m'.isStatic = m.isStatic ∧ m'.maxLocals = m.maxLocals := by
  cases h with
  | kept => exact ⟨rfl, rfl, rfl, rfl⟩
  | woven _ weaves =>
    have hsame := weaveMethod_same weaves
    exact ⟨by rw [hsame], by rw [hsame], by rw [hsame], by rw [hsame]⟩

theorem Instrumented.of_outcome {m m' : Method} (h : m.Outcome p t.provider owner m') :
    Instrumented p t owner m m' := by
  cases h with
  | kept => exact .kept
  | woven analyzed _ weaves => exact .woven analyzed weaves

/-- methods are looked up in the same order -/
theorem find?_instrumented {ms ms' : List Method} (h : List.Forall₂ (Method.Outcome p t.provider owner) ms ms')
    (name desc : String) :
    (∀ m, (ms.find? fun m => m.name == name && m.desc == desc) = some m →
      ∃ m', (ms'.find? fun m => m.name == name && m.desc == desc) = some m' ∧
        Instrumented p t owner m m') ∧
    ((ms.find? fun m => m.name == name && m.desc == desc) = none →
      (ms'.find? fun m => m.name == name && m.desc == desc) = none) := by
  induction h with
  | nil => exact ⟨fun m hm => absurd hm (by simp), fun _ => rfl⟩
  | @cons m m' ms ms' hm _ ih =>
    have hinst := Instrumented.of_outcome hm
    obtain ⟨hname, hdesc, -⟩ := hinst.same
    rw [List.find?_cons, List.find?_cons, hname, hdesc]
    split
    · refine ⟨fun m₁ hm₁ => ?_, fun hnone => absurd hnone (by simp)⟩
      obtain rfl := Option.some.inj hm₁
      exact ⟨m', rfl, hinst⟩
    · exact ih

theorem ClassDef.Rewritten.refl (c : ClassDef) : ClassDef.Rewritten p t c c :=
  ⟨rfl, rfl, rfl, fun _ _ h => h, fun _ _ m h => ⟨m, h, .kept⟩⟩

theorem ClassDef.Rewritten.of_woven {c c' : ClassDef} (h : c.Woven p t.provider c') : ClassDef.Rewritten p t c c' := by
  have hsame := h.same
  refine ⟨by rw [hsame], by rw [hsame], by rw [hsame], fun name desc hnone => ?_, fun name desc m hm => ?_⟩
  · exact (find?_instrumented h.methods name desc).2 hnone
  · exact (find?_instrumented h.methods name desc).1 m hm

theorem ClassDef.Rewritten.of_settled (c : ClassDef) :
    ClassDef.Rewritten p t c (settledClass p t.provider c).1 := by
  cases h : c.firstFailure? p t.provider with
  | some e =>
    rw [settledClass_failed h]
    exact .refl c
  | none => exact .of_woven (settledClass_woven h).1

/-! ## programs -/

/-- **Instrumenting** rewrites a program class by class -/
theorem instrument_ok {failFast : Bool} {p' : Program} {reports : List ClassReport}
    (hp : p.Ordered) (h : instrument p t failFast = .ok (p', reports)) : Rewritten p t p' := by
  unfold instrument at h
  rw [instrumentWith_eq hp] at h
  split at h
  · exact absurd h (by simp)
  · obtain ⟨rfl, -⟩ := Prod.mk.inj (Except.ok.inj h)
    exact ⟨⟨fun c => (settledClass p t.provider c).1, rfl, fun e _ => .of_settled e.2⟩, hp.keys⟩

end

/-! ## the hierarchy -/

namespace Rewritten

variable {p p' : Program} {t : RestoreTable}

/-- each class is found under its name as before -/
theorem class? (h : Rewritten p t p') (name : String) :
    (∀ c, p.class? name = some c →
      ∃ c', p'.class? name = some c' ∧ ClassDef.Rewritten p t c c' ∧ c.name = name) ∧
    (p.class? name = none → p'.class? name = none) := by
  obtain ⟨f, hclasses, hall⟩ := h.classes
  have hfind : p'.class? name = ((p.classes.find? fun e => e.1 == name).map fun e => f e.2) := by
    unfold Program.class?
    rw [hclasses, List.find?_map, Option.map_map]
    rfl
  constructor
  · intro c hc
    obtain ⟨e, he, rfl⟩ := Option.map_eq_some_iff.1 hc
    have hmem := List.mem_of_find?_eq_some he
    refine ⟨f e.2, by rw [hfind, he]; rfl, hall e hmem, ?_⟩
    rw [← h.keys e hmem]
    simpa using List.find?_some he
  · intro hnone
    rw [hfind, Option.map_eq_none_iff.1 hnone]
    rfl

theorem superOf? (h : Rewritten p t p') (name : String) : p'.superOf? name = p.superOf? name := by
  obtain ⟨hsome, hnone⟩ := h.class? name
  unfold Program.superOf?
  cases hc : p.class? name with
  | none => rw [hnone hc]
  | some c =>
    obtain ⟨c', hc', hlike, -⟩ := hsome c hc
    rw [hc']
    dsimp only
    rw [hlike.superName]

theorem superNames (h : Rewritten p t p') : p'.superNames = p.superNames := by
  obtain ⟨f, hclasses, hall⟩ := h.classes
  have hsupers (cs : List (String × ClassDef))
      (hcs : ∀ e ∈ cs, ClassDef.Rewritten p t e.2 (f e.2)) :
      (cs.map fun e => (e.1, f e.2)).filterMap (fun e => e.2.superName) =
        cs.filterMap fun e => e.2.superName := by
    induction cs with
    | nil => rfl
    | cons e cs ih =>
      rw [List.map_cons, List.filterMap_cons, List.filterMap_cons,
        (hcs e List.mem_cons_self).superName, ih fun e he => hcs e (List.mem_cons_of_mem _ he)]
  unfold Program.superNames
  rw [hclasses, hsupers p.classes hall]

theorem superclassesFrom (h : Rewritten p t p') (fuel : Nat) (seen : List String) (name : String) :
    p'.superclassesFrom fuel seen name = p.superclassesFrom fuel seen name := by
  induction fuel generalizing seen name with
  | zero => rfl
  | succ fuel ih =>
    rw [Program.superclassesFrom, Program.superclassesFrom, h.superOf?]
    split
    · rfl
    · rw [ih]

theorem superclassChain (h : Rewritten p t p') (name : String) :
    p'.superclassChain name = p.superclassChain name := by
  unfold Program.superclassChain
  rw [h.superNames, h.superclassesFrom]

theorem interfacesOf (h : Rewritten p t p') (name : String) :
    p'.interfacesOf name = p.interfacesOf name := by
  obtain ⟨hsome, hnone⟩ := h.class? name
  unfold Program.interfacesOf
  cases hc : p.class? name with
  | none => rw [hnone hc]
  | some c =>
    obtain ⟨c', hc', hlike, -⟩ := hsome c hc
    rw [hc', Option.map_some, Option.map_some, hlike.interfaces]

theorem reachesFrom (h : Rewritten p t p') (target : String) (fuel : Nat)
    (seen pending : List String) :
    p'.reachesFrom target fuel seen pending = p.reachesFrom target fuel seen pending := by
  induction fuel generalizing seen pending with
  | zero => cases pending <;> rfl
  | succ fuel ih =>
    cases pending with
    | nil => rfl
    | cons type rest => simp only [Program.reachesFrom, ih, h.interfacesOf]

theorem interfaceCount (h : Rewritten p t p') : p'.interfaceCount = p.interfaceCount := by
  obtain ⟨f, hclasses, hall⟩ := h.classes
  unfold Program.interfaceCount
  rw [hclasses]
  generalize p.classes = cs at hall
  induction cs with
  | nil => rfl
  | cons e cs ih =>
    rw [List.map_cons, List.foldr_cons, List.foldr_cons, ih fun e he => hall e (List.mem_cons_of_mem _ he),
      (hall e List.mem_cons_self).interfaces]

/-- **The same types** may stand for one another -/
theorem isAssignable (h : Rewritten p t p') (a b : String) :
    p'.isAssignable a b = p.isAssignable a b := by
  unfold Program.isAssignable
  dsimp only
  rw [h.superclassChain, h.interfaceCount, h.reachesFrom]

end Rewritten

/-! ## calls -/

/-- the class that a search along a chain of classes finds a method in -/
def Program.definer? (p : Program) (id : MethodId) (chain : List String) : Option String :=
  chain.find? fun c => (p.method? ⟨c, id.name, id.desc⟩).isSome

/-- what a call finds in a program, and in the rewritten one -/
inductive SameTarget (p : Program) (t : RestoreTable) (p' : Program) (hosts hosts' : List HostMethod)
    (owner : Option String) : Target → Target → Prop
  | native {id : MethodId} {n n' : Native} (found : Native.find? hosts id = some n)
      (found' : Native.find? hosts' id = some n') :
      SameTarget p t p' hosts hosts' owner (.native n) (.native n')
  | code {o : String} {m m' : Method} (defined : owner = some o)
      (found : p.method? (m.id o) = some m) (found' : p'.method? (m.id o) = some m')
      (instrumented : Instrumented p t o m m') :
      SameTarget p t p' hosts hosts' owner (.code m) (.code m')

/-- two searches end in the same way -/
def SameSearch (p : Program) (t : RestoreTable) (p' : Program) (hosts hosts' : List HostMethod)
    (owner : Option String) : Except Fault (Option Target) → Except Fault (Option Target) → Prop
  | .error f, r => r = .error f
  | .ok none, r => r = .ok none
  | .ok (some x), r => ∃ x', r = .ok (some x') ∧ SameTarget p t p' hosts hosts' owner x x'

/-- the same methods are host methods, or built-in ones -/
def HostsAlike (hosts hosts' : List HostMethod) : Prop :=
  ∀ id, (Native.find? hosts' id).isSome = (Native.find? hosts id).isSome

namespace Rewritten

variable {p p' : Program} {t : RestoreTable} {hosts hosts' : List HostMethod}

theorem method? (h : Rewritten p t p') (id : MethodId) :
    (∀ m, p.method? id = some m → m.id id.owner = id ∧
      ∃ m', p'.method? id = some m' ∧ Instrumented p t id.owner m m') ∧
    (p.method? id = none → p'.method? id = none) := by
  obtain ⟨hsome, hnone⟩ := h.class? id.owner
  unfold Program.method?
  cases hc : p.class? id.owner with
  | none => exact ⟨fun m hm => absurd hm (by simp), fun _ => by rw [hnone hc]; rfl⟩
  | some c =>
    obtain ⟨c', hc', hlike, hname⟩ := hsome c hc
    rw [hc', Option.bind_some, Option.bind_some]
    refine ⟨fun m hm => ?_, hlike.missing _ _⟩
    have hid := List.find?_some hm
    simp only [Bool.and_eq_true, beq_iff_eq] at hid
    rw [← hname]
    exact ⟨by unfold Method.id; rw [hid.1, hid.2, hname], hlike.method _ _ m hm⟩

theorem findAlong (h : Rewritten p t p') (hh : HostsAlike hosts hosts') (k : InvokeKind)
    (id : MethodId) (chain : List String) :
    SameSearch p t p' hosts hosts' (p.definer? id chain)
      ((⟨p, hosts⟩ : World).findAlong k id chain) ((⟨p', hosts'⟩ : World).findAlong k id chain) := by
  induction chain with
  | nil => exact rfl
  | cons c chain ih =>
    obtain ⟨hsome, hnone⟩ := h.method? ⟨c, id.name, id.desc⟩
    unfold World.findAlong Program.definer?
    have hfind (p : Program) : ((p.class? c).bind fun d => d.method? id.name id.desc) =
        p.method? ⟨c, id.name, id.desc⟩ := rfl
    rw [hfind, hfind]
    cases hm : p.method? ⟨c, id.name, id.desc⟩ with
    | some m =>
      obtain ⟨hid, m', hm', hinst⟩ := hsome m hm
      rw [hm']
      dsimp only at hid hinst ⊢
      rw [hinst.same.2.2.1, List.find?_cons_of_pos (by rw [hm]; rfl)]
      split
      · exact ⟨_, rfl, .code rfl (by rw [hid]; exact hm) (by rw [hid]; exact hm') hinst⟩
      · exact rfl
    | none =>
      rw [hnone hm, List.find?_cons_of_neg (by rw [hm]; simp)]
      dsimp only
      have hsame := hh ⟨c, id.name, id.desc⟩
      cases hn : Native.find? hosts ⟨c, id.name, id.desc⟩ with
      | some n =>
        rw [hn] at hsame
        obtain ⟨n', hn'⟩ := Option.isSome_iff_exists.1 hsame
        rw [hn']
        exact ⟨_, rfl, .native hn hn'⟩
      | none =>
        rw [hn] at hsame
        rw [Option.isSome_eq_false_iff.1 hsame |> Option.isNone_iff_eq_none.1]
        exact ih

end Rewritten

/-- where the search for the method of a call starts -/
def MethodId.searchStart (id : MethodId) (k : InvokeKind) (receiver : Option String) : String :=
  match k with
  | .virtual | .interface => receiver.getD id.owner
  | .static | .special => id.owner

/-- the class of the receiver, where there is one; there is no answer where it is missing -/
def Call.receiver? (c : Call) (h : Heap) : Option (Option String) :=
  if c.kind.hasReceiver then
    match c.args.head? with
    | some (.ref (some r)) => some (some (h.className r))
    | _ => none
  else some none

/-- what a call runs is searched for from there -/
theorem World.resolve_eq (w : World) (k : InvokeKind) (id : MethodId) (receiver : Option String) :
    w.resolve k id receiver =
      match w.findAlong k id (w.program.superclassChain (id.searchStart k receiver)) with
      | .error f => .error f
      | .ok (some t) => .ok t
      | .ok none =>
        match Native.find? w.hosts id with
        | some n => .ok (.native n)
        | none => .error (.noMethod id) := by
  cases k <;> rfl

/-- what a call runs, if it runs something -/
def World.target? (w : World) (h : Heap) (c : Call) : Option Target :=
  (c.receiver? h).bind fun r => (w.resolve c.kind c.method r).toOption

/-- the class in which the method of a call is found -/
def World.owner? (w : World) (h : Heap) (c : Call) : Option String :=
  (c.receiver? h).bind fun r =>
    w.program.definer? c.method (w.program.superclassChain (c.method.searchStart c.kind r))

namespace Rewritten

variable {p p' : Program} {t : RestoreTable} {hosts hosts' : List HostMethod}

theorem resolve (h : Rewritten p t p') (hh : HostsAlike hosts hosts') (k : InvokeKind)
    (id : MethodId) (receiver : Option String) :
    match (⟨p, hosts⟩ : World).resolve k id receiver with
    | .error f => (⟨p', hosts'⟩ : World).resolve k id receiver = .error f
    | .ok x => ∃ x', (⟨p', hosts'⟩ : World).resolve k id receiver = .ok x' ∧
        SameTarget p t p' hosts hosts'
          (p.definer? id (p.superclassChain (id.searchStart k receiver))) x x' := by
  have hchain := h.findAlong hh k id (p.superclassChain (id.searchStart k receiver))
  rw [World.resolve_eq, World.resolve_eq]
  dsimp only
  rw [h.superclassChain]
  cases hf : (⟨p, hosts⟩ : World).findAlong k id
      (p.superclassChain (id.searchStart k receiver)) with
  | error f =>
    rw [hf] at hchain
    rw [show _ = Except.error f from hchain]
  | ok found =>
    rw [hf] at hchain
    cases found with
    | some x =>
      obtain ⟨x', hx', hsame⟩ := hchain
      rw [hx']
      exact ⟨x', rfl, hsame⟩
    | none =>
      rw [show _ = Except.ok none from hchain]
      dsimp only
      have hsame := hh id
      cases hn : Native.find? hosts id with
      | some n =>
        rw [hn] at hsame
        obtain ⟨n', hn'⟩ := Option.isSome_iff_exists.1 hsame
        rw [hn']
        exact ⟨_, rfl, .native hn hn'⟩
      | none =>
        rw [hn] at hsame
        rw [Option.isNone_iff_eq_none.1 (Option.isSome_eq_false_iff.1 hsame)]

/-- **A call** starts the same in both programs, or fails in the same way -/
theorem call (h : Rewritten p t p') (hh : HostsAlike hosts hosts') (m m' : Machine)
    (hheap : m'.heap = m.heap) (c : Call) :
    (∃ x x', (⟨p, hosts⟩ : World).target? m.heap c = some x ∧
      m.call ⟨p, hosts⟩ c = m.enter c.args x ∧ m'.call ⟨p', hosts'⟩ c = m'.enter c.args x' ∧
      SameTarget p t p' hosts hosts' ((⟨p, hosts⟩ : World).owner? m.heap c) x x') ∨
    (∃ f, m.call ⟨p, hosts⟩ c = m.fault f ∧ m'.call ⟨p', hosts'⟩ c = m'.fault f) ∨
    ∃ type message, m.call ⟨p, hosts⟩ c = m.throwNew type message ∧
      m'.call ⟨p', hosts'⟩ c = m'.throwNew type message := by
  have hon (r : Option String) (hr : c.receiver? m.heap = some r) :
      (∃ x x', (⟨p, hosts⟩ : World).target? m.heap c = some x ∧
        m.callOn ⟨p, hosts⟩ c r = m.enter c.args x ∧
        m'.callOn ⟨p', hosts'⟩ c r = m'.enter c.args x' ∧
        SameTarget p t p' hosts hosts' ((⟨p, hosts⟩ : World).owner? m.heap c) x x') ∨
      ∃ f, m.callOn ⟨p, hosts⟩ c r = m.fault f ∧ m'.callOn ⟨p', hosts'⟩ c r = m'.fault f := by
    have hresolve := h.resolve hh c.kind c.method r
    unfold Machine.callOn World.target? World.owner?
    rw [hr]
    cases hx : (⟨p, hosts⟩ : World).resolve c.kind c.method r with
    | error f =>
      rw [hx] at hresolve
      rw [show _ = Except.error f from hresolve]
      exact .inr ⟨f, rfl, rfl⟩
    | ok x =>
      rw [hx] at hresolve
      obtain ⟨x', hx', hsame⟩ := hresolve
      rw [hx']
      refine .inl ⟨x, x', ?_, rfl, rfl, hsame⟩
      rw [Option.bind_some, hx]
      rfl
  unfold Machine.call
  rw [hheap]
  by_cases hk : c.kind.hasReceiver = true
  · rw [if_pos hk, if_pos hk]
    cases ha : c.args.head? with
    | none => exact .inr (.inl ⟨_, rfl, rfl⟩)
    | some v =>
      cases v with
      | ref r =>
        cases r with
        | none => exact .inr (.inr ⟨_, _, rfl, rfl⟩)
        | some r =>
          have hr : c.receiver? m.heap = some (some (m.heap.className r)) := by
            unfold Call.receiver?
            rw [if_pos hk, ha]
          exact (hon _ hr).imp_right .inl
      | _ => exact .inr (.inl ⟨_, rfl, rfl⟩)
  · rw [if_neg hk, if_neg hk]
    have hr : c.receiver? m.heap = some none := by
      unfold Call.receiver?
      rw [if_neg hk]
    exact (hon _ hr).imp_right .inl

end Rewritten
end Resumable
