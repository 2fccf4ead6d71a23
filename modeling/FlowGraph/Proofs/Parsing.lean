import FlowGraph.Proofs.Exchanges
import FlowGraph.Proofs.Integers
import FlowGraph.Proofs.Visiting

/-!
# Parsing as a visit

A node that parses reads its text and then goes one of two ways. If the text holds an integer of 32 bits, it
publishes this integer and fires the first of its flow outputs, otherwise it fires the second one and nothing
else: what it has published before stays what it is, and nothing that has been computed from it is computed
again.
-/

namespace FlowGraph

/-- The visit of a node that finds an integer in its text. -/
def parsed (text : String) (v : Int32) : Visit where
  told := [⟨.input 0 .text, text⟩, ⟨.publish 0 (.int v), ()⟩]
  edge := 0

/-- The visit of a node that finds no integer in its text. -/
def notParsed (text : String) : Visit where
  told := [⟨.input 0 .text, text⟩]
  edge := 1

/-- What a node that parses does when it has read its text, by the integer that it finds there. -/
def NodeProgram.concludeParsing : Option Int32 → NodeProgram Unit
  | some v => .ask (.publish 0 (.int v)) fun _ => NodeProgram.fire 0
  | none => NodeProgram.fire 1

namespace Graph

open Engine (Returns Visits)

variable {g : Graph} {n : NodeId} {k : Member} {p p' : Pulse}

/-- Reading an output returns a value, and publishes nothing. -/
def ReadsAs (g : Graph) (p : Pulse) (output : Port) (v : Value) : Prop :=
  ∀ depth, ∃ p', Returns g p (Engine.resolve g depth output) v p' ∧ p'.published = p.published

/-- An output of a driven node is read as what has been published there, or as its resting value. -/
theorem readsAs_of_driven (catalogue : g.FromCatalogue) (fresh : g.Fresh p) {output : Port} {o : Output}
    (member : g.member? output.node = some k) (declared : k.descriptor.outputs[output.index]? = some o)
    (driven : k.node.isPure = false) :
    g.ReadsAs p output ((p.published.get? output).getD o.resting) := by
  intro depth
  obtain ⟨v, p', returns, read, value⟩ := resolve_returns catalogue fresh ⟨k, member, declared⟩ depth
  obtain rfl := value.unique (.driven member declared driven)
  exact ⟨p', returns, read.published⟩

/-- What a node that parses has done with its text, by what has been published before. -/
inductive Parses (g : Graph) (n : NodeId) (earlier : List Event) (text : String) (p p' : Pulse) : Visit → Prop where
  | succeeds {v : Int32} (holds : ∀ u : Int32, Text.Holds text u.toInt ↔ u = v)
      (value : g.ReadsAs p' ⟨n, 0⟩ (.int v)) : Parses g n earlier text p p' (parsed text v)
  | fails (holds : ∀ u : Int32, ¬ Text.Holds text u.toInt) (keeps : p.KeepsMemo p')
      (invalidations : p'.invalidations = p.invalidations) (published : p'.published = p.published)
      (value : g.ReadsAs p' ⟨n, 0⟩ ((lastPublished earlier ⟨n, 0⟩).getD (.int (0 : Int32)))) :
      Parses g n earlier text p p' (notParsed text)

/-- A node that parses reads its text, and then does what there is to do with it. -/
theorem exists_parses (catalogue : g.FromCatalogue) {s : Scope} (member : g.member? s.node = some k)
    (parses : k.node = CatalogueNode.parseInt.node) (fresh : g.Fresh p) {earlier : List Event}
    (known : p.published.get? = lastPublished earlier) (w : World) :
    ∃ text : String, g.InputIs (lastPublished earlier) ⟨s.node, 0⟩ ⟨"Text", .text, .single "" false false⟩
        (some (.text text)) ∧
      ∃ visit p', Visits g s k.node.process w p visit w p' ∧ Parses g s.node earlier text p p' visit := by
  have declared : k.descriptor.inputs[0]? = some ⟨"Text", .text, .single "" false false⟩ := by
    rw [Member.descriptor, parses]
    rfl
  have output : k.descriptor.outputs[0]? = some ⟨"Value", .int⟩ := by
    rw [Member.descriptor, parses]
    rfl
  have driven : k.node.isPure = false := by
    rw [parses]
    rfl
  have process : k.node.process = .ask (.input 0 .text) fun text =>
      NodeProgram.concludeParsing (CatalogueNode.int32? text) := by
    rw [parses]
    rfl
  obtain ⟨text, p₁, reads, ⟨hasRead, keeps⟩, ⟨fresh₁, published⟩, worth⟩ :=
    input_returns catalogue (carries_hasRead.and carries_keepsMemo) fresh ⟨k, member, declared⟩ rfl
  rw [known] at worth
  refine ⟨text, worth, ?_⟩
  rw [process]
  cases found : CatalogueNode.int32? text with
  | some v =>
      have holds := Text.catalogue_int32?_eq_some_iff.mp found
      have undriven : g.isPure s.node = false := by rw [isPure, member]; exact driven
      have fresh' : g.Fresh (p₁.publish ⟨s.node, 0⟩ (.int v) (g.dependents ⟨s.node, 0⟩)) :=
        fresh₁.publish catalogue undriven ⟨_, ⟨k, member, output⟩, rfl⟩
      have value : g.ReadsAs _ ⟨s.node, 0⟩ _ := readsAs_of_driven catalogue fresh' member output driven
      rw [Pulse.publish, Table.get?_insert_self] at value
      have only (u : Int32) : Text.Holds text u.toInt ↔ u = v :=
        ⟨fun holds' => Int32.toInt_inj.mp (holds'.unique holds), fun same => same ▸ holds⟩
      exact ⟨parsed text v, _, .input reads (by rw [found]; exact .publish (.fires rfl)), .succeeds only value⟩
  | none =>
      have value : g.ReadsAs _ ⟨s.node, 0⟩ _ := readsAs_of_driven catalogue fresh₁ member output driven
      rw [published, known] at value
      have invalidations : p₁.invalidations = p.invalidations := by
        obtain ⟨_, _, _, rfl⟩ := hasRead
        rfl
      refine ⟨notParsed text, p₁, .input reads (by rw [found]; exact .fires rfl),
        .fails (fun u holds => ?_) keeps invalidations published value⟩
      rw [Text.catalogue_int32?_eq_some_iff.mpr holds] at found
      cases found

/-- A node that parses and that flow of a live pulse is let into makes a visit, after which it fires one of its two
flow outputs and nothing else, by what its text is worth by then. It fires the first one if the text holds an
integer of 32 bits, after it has published this integer; otherwise it fires the second one, and what it has
published before, or its resting value, is what is still read there. Every decimal text of an integer of 32 bits,
whatever zeros stand in front of its digits and whatever blanks surround it, is taken for this integer. -/
theorem parses_exactly_integers (catalogue : g.FromCatalogue) {root : NodeId} {r : Member}
    (triggerable : g.root root = .ok r) {w₀ w : World} {token : TokenId} {earlier : List Event} {m : Machine}
    (before : Machine.Run g (fun _ _ => True) (Machine.start g w₀ root token).1
      (Machine.start g w₀ root token).2 earlier w m)
    (arrives : m.Arrives g n) (live : w.isCancelled m.pulse.token = false) (member : g.member? n = some k)
    (parses : k.node = CatalogueNode.parseInt.node) :
    k.descriptor.flows.map (·.name) = ["On Success", "On Fail"] ∧
    k.descriptor.outputs.map (·.name) = ["Value"] ∧
    ∃ text : String,
      (∀ v, g.InputIs (lastPublished earlier) ⟨n, 0⟩ ⟨"Text", .text, .single "" false false⟩ v ↔
        v = some (.text text)) ∧
      ∃ visit p',
        Visits g m.scope k.node.process w (m.pulse.begin n g.config.recordActivations) visit w p' ∧
        m.Settles g n w (w, m.fires g p' visit.edge) ∧ Parses g n earlier text m.pulse p' visit ∧
        ∀ (v : Int32) (width : Nat) (front back : List Char), (∀ c ∈ front, Text.isBlank c = true) →
          (∀ c ∈ back, Text.isBlank c = true) →
          text = .ofList (front ++ Text.paddedInteger width v.toInt ++ back) → visit = parsed text v := by
  have underWay := underWay_of_run catalogue triggerable before
  have known := published_of_run catalogue triggerable before
  have isOpen : k.IsOpen := catalogue.isOpen member (by rw [Member.descriptor, parses]; rfl)
  obtain ⟨rfl, _⟩ := id arrives
  have fresh := underWay.fresh.begin m.scope.node g.config.recordActivations
  obtain ⟨text, worth, visit, p', visits, parsing⟩ := exists_parses catalogue member parses fresh known w
  refine ⟨by rw [Member.descriptor, parses]; rfl, by rw [Member.descriptor, parses]; rfl, text,
    fun v => ⟨fun worth' => worth'.unique worth, fun same => same ▸ worth⟩, visit, p', visits,
    arrives.visits member isOpen live visits, ?_, ?_⟩
  · cases parsing with
    | succeeds holds value => exact .succeeds holds value
    | fails holds keeps same published value => exact .fails holds keeps same published value
  · rintro v width front back blankFront blankBack rfl
    have holds := (Text.numeral_paddedInteger width v.toInt).holds blankFront blankBack
    cases parsing with
    | succeeds only => rw [(only v).mp holds]
    | fails none => exact absurd holds (none v)

/-- A node that parses the decimal text of the least number, with a zero too many and between blanks. -/
def leastNumber : Graph where
  name := "least number"
  config := {}
  members := [⟨"entry", CatalogueNode.onTrigger.node⟩, ⟨"parse", CatalogueNode.parseInt.node⟩,
    ⟨"text", (CatalogueNode.constant (.text "\u3000-02147483648\n")).node⟩]
  valueEdges := [⟨⟨⟨2⟩, 0⟩, ⟨⟨1⟩, 0⟩⟩]
  flowEdges := [⟨⟨⟨0⟩, 0⟩, ⟨1⟩⟩]

theorem leastNumber_fromCatalogue : leastNumber.FromCatalogue where
  built := ⟨"least number", {}, [.add "entry" CatalogueNode.onTrigger.node,
    .add "parse" CatalogueNode.parseInt.node,
    .add "text" (CatalogueNode.constant (.text "\u3000-02147483648\n")).node,
    .connectValue ⟨"text", "Value", "parse", "Text"⟩, .connectFlow ⟨"entry", "Next", "parse"⟩], by cbv⟩
  nodes m member := by
    simp only [leastNumber, List.mem_cons, List.not_mem_nil, or_false] at member
    rcases member with rfl | rfl | rfl <;> exact ⟨_, rfl⟩

/-- The least number is found in this text, and the first flow output is fired. -/
theorem parses_exactly_integers_leastNumber :
    ∃ r k earlier w m p', leastNumber.root ⟨0⟩ = .ok r ∧
      Machine.Run leastNumber (fun _ _ => True) (Machine.start leastNumber {} ⟨0⟩ ⟨0⟩).1
        (Machine.start leastNumber {} ⟨0⟩ ⟨0⟩).2 earlier w m ∧
      m.Arrives leastNumber ⟨1⟩ ∧ w.isCancelled m.pulse.token = false ∧ leastNumber.member? ⟨1⟩ = some k ∧
      k.node = CatalogueNode.parseInt.node ∧ m.Settles leastNumber ⟨1⟩ w (w, m.fires leastNumber p' 0) ∧
      Parses leastNumber ⟨1⟩ earlier "\u3000-02147483648\n" m.pulse p'
        (parsed "\u3000-02147483648\n" (-2147483648)) := by
  have triggerable : leastNumber.root ⟨0⟩ = .ok ⟨"entry", CatalogueNode.onTrigger.node⟩ := rfl
  obtain ⟨t, moved, here, arriving, live⟩ :
      ∃ t : Trace, t = Machine.alone leastNumber (Machine.start leastNumber {} ⟨0⟩ ⟨0⟩).1
          (Machine.start leastNumber {} ⟨0⟩ ⟨0⟩).2 5 ∧ t.machine.scope.node = ⟨1⟩ ∧
        t.machine.program = Engine.activation leastNumber t.machine.scope ∧ t.isCancelled = false :=
    ⟨_, rfl, by cbv, by cbv, by cbv⟩
  have before : Machine.Run leastNumber (fun _ _ => True) _ _ t.events t.world t.machine :=
    moved ▸ Machine.run_alone leastNumber (fun _ _ => trivial) _ _ 5
  have arrives : t.machine.Arrives leastNumber ⟨1⟩ := ⟨here, arriving⟩
  obtain ⟨_, _, text, worth, visit, p', _, settles, parsing, found⟩ :=
    parses_exactly_integers leastNumber_fromCatalogue triggerable before arrives live rfl rfl
  have same : some (Value.text "\u3000-02147483648\n") = some (.text text) :=
    (worth _).mp (.inl ⟨⟨⟨2⟩, 0⟩, _, rfl, .constant rfl rfl, rfl, rfl⟩)
  obtain rfl := Value.text.inj (Option.some.inj same)
  have blank : Text.isBlank '\u3000' = true ∧ Text.isBlank '\n' = true := by decide
  have padded : Text.paddedInteger 11 (-2147483648 : Int32).toInt =
      ['-', '0', '2', '1', '4', '7', '4', '8', '3', '6', '4', '8'] := by decide +kernel
  obtain rfl := found (-2147483648) 11 ['\u3000'] ['\n'] (List.forall_mem_singleton.mpr blank.1)
    (List.forall_mem_singleton.mpr blank.2) (by rw [padded]; rfl)
  exact ⟨_, _, _, _, _, p', triggerable, before, arrives, live, rfl, rfl, settles, parsing⟩

end Graph

end FlowGraph
