import CircuitSim.Flat.Hierarchy
import CircuitSim.Proofs.Result

/-! The wires of one definition are its nets: every wire comes from a net and one of its sinks, every sink of a net
has a wire, and no sink has two. -/
namespace CircuitSim.Hierarchy

theorem findLastAt {α : Type} {name : String} {start i : Nat} {xs : List (String × α)} {x : α}
    (found : findLast? name start xs = some (i, x)) : start ≤ i ∧ xs[i - start]? = some (name, x) := by
  induction xs generalizing start with
  | nil => exact nomatch found
  | cons entry rest ih =>
    obtain ⟨key, y⟩ := entry
    unfold findLast? at found
    split at found
    · rename_i later hit
      cases found
      obtain ⟨le, here⟩ := ih hit
      have next : i - start = i - (start + 1) + 1 := by omega
      exact ⟨by omega, by rw [next, List.getElem?_cons_succ, here]⟩
    · split at found
      · rename_i same
        cases found
        exact ⟨Nat.le_refl _, by rw [Nat.sub_self, List.getElem?_cons_zero, same]⟩
      · exact nomatch found

theorem findPortAt {name : String} {start k width : Nat} {ports : List Port}
    (found : findPort? name start ports = some (k, width)) :
    start ≤ k ∧ ports[k - start]? = some ⟨name, width⟩ := by
  induction ports generalizing start with
  | nil => exact nomatch found
  | cons port rest ih =>
    unfold findPort? at found
    split at found
    · rename_i same
      cases found
      exact ⟨Nat.le_refl _, by rw [Nat.sub_self, List.getElem?_cons_zero, ← same]⟩
    · obtain ⟨le, here⟩ := ih found
      have next : k - start = k - (start + 1) + 1 := by omega
      exact ⟨by omega, by rw [next, List.getElem?_cons_succ, here]⟩

def sinkPin? (interface : Interface) (locals : List (String × Interface)) : Terminal → Option (Pin × Nat)
  | .port k => interface.outputs[k]?.map fun port => (.own port.name, port.width)
  | .pin i k => locals[i]?.bind fun (owner, inner) =>
    inner.inputs[k]?.map fun port => (.of owner port.name, port.width)

def sourcePin? (interface : Interface) (locals : List (String × Interface)) : Terminal → Option (Pin × Nat)
  | .port k => interface.inputs[k]?.map fun port => (.own port.name, port.width)
  | .pin i k => locals[i]?.bind fun (owner, inner) =>
    inner.outputs[k]?.map fun port => (.of owner port.name, port.width)

section Resolve

variable {definition : Definition} {locals : List (String × Interface)} {pin : Pin} {terminal : Terminal}
  {width : Nat}

theorem pickAt {right other : List Port} {make : Nat → Terminal} {wrong : Defect}
    (ok : pick definition pin right other make wrong = .ok (terminal, width)) :
    ∃ k, terminal = make k ∧ right[k]? = some ⟨pin.port, width⟩ := by
  unfold pick at ok
  split at ok
  · rename_i k width found
    cases ok
    exact ⟨k, rfl, (findPortAt found).2⟩
  · split at ok <;> exact nomatch ok

theorem sinkAt (ok : sink definition locals pin = .ok (terminal, width)) :
    sinkPin? definition.interface locals terminal = some (pin, width) := by
  obtain ⟨owner, name⟩ := pin
  unfold sink at ok
  cases owner with
  | none =>
    obtain ⟨k, rfl, here⟩ := pickAt ok
    have port : definition.interface.outputs[k]? = some ⟨name, width⟩ := here
    simp only [sinkPin?, port, Option.map_some, Pin.own]
  | some owner =>
    simp only at ok
    split at ok
    · rename_i i interface found
      obtain ⟨k, rfl, here⟩ := pickAt ok
      have entry := (findLastAt found).2
      rw [Nat.sub_zero] at entry
      simp only [sinkPin?, entry, here, Option.bind_some, Option.map_some, Pin.of]
    · exact nomatch ok

theorem sourceAt (ok : source definition locals pin = .ok (terminal, width)) :
    sourcePin? definition.interface locals terminal = some (pin, width) := by
  obtain ⟨owner, name⟩ := pin
  unfold source at ok
  cases owner with
  | none =>
    obtain ⟨k, rfl, here⟩ := pickAt ok
    have port : definition.interface.inputs[k]? = some ⟨name, width⟩ := here
    simp only [sourcePin?, port, Option.map_some, Pin.own]
  | some owner =>
    simp only at ok
    split at ok
    · rename_i i interface found
      obtain ⟨k, rfl, here⟩ := pickAt ok
      have entry := (findLastAt found).2
      rw [Nat.sub_zero] at entry
      simp only [sourcePin?, entry, here, Option.bind_some, Option.map_some, Pin.of]
    · exact nomatch ok

end Resolve

structure FromNet (definition : Definition) (locals : List (String × Interface)) (net : Net) (pin : Pin)
    (wire : Wire) (width : Nat) : Prop where
  source : Hierarchy.source definition locals net.source = .ok (wire.source, width)
  sink : Hierarchy.sink definition locals pin = .ok (wire.sink, width)

structure Joins (definition : Definition) (locals : List (String × Interface)) (nets : List Net)
    (before wires : List Wire) : Prop where
  kept : ∀ wire ∈ before, wire ∈ wires
  single : (before.map (·.sink)).Nodup → (wires.map (·.sink)).Nodup
  fromNet : ∀ wire ∈ wires, wire ∈ before ∨
    ∃ net ∈ nets, ∃ pin ∈ net.sinks, ∃ width, FromNet definition locals net pin wire width
  covered : ∀ net ∈ nets, ∀ pin ∈ net.sinks, ∃ wire ∈ wires, ∃ width,
    FromNet definition locals net pin wire width

section Connect

variable {definition : Definition} {locals : List (String × Interface)}

theorem connectJoins {path : List String} {net : Net} {terminal : Terminal} {width : Nat}
    (known : source definition locals net.source = .ok (terminal, width)) {pins : List Pin}
    {before wires : List Wire} (ok : connect path definition locals net terminal width pins before = .ok wires) :
    Joins definition locals [⟨net.source, pins⟩] before wires := by
  induction pins generalizing before with
  | nil =>
    cases ok
    exact ⟨fun _ mem => mem, id, fun _ mem => .inl mem, by simp⟩
  | cons pin rest ih =>
    obtain ⟨⟨target, targetWidth⟩, found, ok⟩ := Result.okBind ok
    simp only at ok
    split at ok
    · exact nomatch ok
    · rename_i equal
      split at ok
      · exact nomatch ok
      · rename_i free
        obtain ⟨kept, single, fromNet, covered⟩ := ih ok
        rw [not_not.mp equal] at found
        have first : FromNet definition locals ⟨net.source, pin :: rest⟩ pin ⟨target, terminal⟩ width :=
          ⟨known, found⟩
        refine ⟨fun wire mem => kept wire (List.mem_cons_of_mem _ mem), fun distinct => ?_, fun wire mem => ?_, ?_⟩
        · apply single
          rw [List.map_cons, List.nodup_cons]
          refine ⟨fun mem => free ?_, distinct⟩
          obtain ⟨wire, member, same⟩ := List.mem_map.mp mem
          exact List.any_eq_true.mpr ⟨wire, member, decide_eq_true same⟩
        · rcases fromNet wire mem with old | ⟨net', mem', pin', sink, width', joined⟩
          · rcases List.mem_cons.mp old with rfl | earlier
            · exact .inr ⟨_, List.mem_cons_self, pin, List.mem_cons_self, width, first⟩
            · exact .inl earlier
          · obtain rfl := List.mem_singleton.mp mem'
            exact .inr ⟨_, List.mem_cons_self, pin', List.mem_cons_of_mem pin sink, width', ⟨joined.1, joined.2⟩⟩
        · intro net' mem' pin' sink
          obtain rfl := List.mem_singleton.mp mem'
          rcases List.mem_cons.mp sink with rfl | later
          · exact ⟨_, kept _ List.mem_cons_self, width, first⟩
          · obtain ⟨wire, member, width', joined⟩ := covered _ List.mem_cons_self pin' later
            exact ⟨wire, member, width', ⟨joined.1, joined.2⟩⟩

theorem connectAllJoins {path : List String} {nets : List Net} {before wires : List Wire}
    (ok : connectAll path definition locals nets before = .ok wires) : Joins definition locals nets before wires := by
  induction nets generalizing before with
  | nil =>
    cases ok
    exact ⟨fun _ mem => mem, id, fun _ mem => .inl mem, nofun⟩
  | cons net rest ih =>
    obtain ⟨⟨terminal, width⟩, known, ok⟩ := Result.okBind ok
    obtain ⟨between, connected, ok⟩ := Result.okBind ok
    obtain ⟨kept, single, fromNet, covered⟩ := connectJoins known connected
    obtain ⟨kept', single', fromNet', covered'⟩ := ih ok
    refine ⟨fun wire mem => kept' wire (kept wire mem), fun distinct => single' (single distinct),
      fun wire mem => ?_, fun net' mem' pin sink => ?_⟩
    · rcases fromNet' wire mem with old | ⟨net', mem', rest'⟩
      · rcases fromNet wire old with older | ⟨net', mem', pin, sink, width', joined⟩
        · exact .inl older
        · obtain rfl := List.mem_singleton.mp mem'
          exact .inr ⟨net, List.mem_cons_self, pin, sink, width', joined⟩
      · exact .inr ⟨net', List.mem_cons_of_mem net mem', rest'⟩
    · rcases List.mem_cons.mp mem' with rfl | later
      · obtain ⟨wire, member, width', joined⟩ := covered _ List.mem_cons_self pin sink
        exact ⟨wire, kept' wire member, width', joined⟩
      · exact covered' net' later pin sink

end Connect

end CircuitSim.Hierarchy
