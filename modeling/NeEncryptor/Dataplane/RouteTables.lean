import NeEncryptor.Dataplane.CryptoRoute

/-!
# What the numbering tables keep

A lookup of a route keeps every entry of the route table.  The fallback table of a thread steps the
number of the packet's direction, and loses the numbers of the entry it overwrites.
-/

namespace NeEncryptor.Route

namespace Table

variable {table table' : Table} {key k : Key} {way : Fin 8} {e : Entry}

theorem setOf_congr (routes : table'.routes = table.routes) : table'.setOf k = table.setOf k := by
  rw [setOf, routes, setOf]

theorem entry_congr (routes : table'.routes = table.routes) : table'.entry k = table.entry k := by
  rw [entry, setOf_congr routes, entry]

theorem setOf_write_of_same (same : routeSetOf k = routeSetOf key) :
    (table.write key way e).setOf k = Function.update (table.setOf k) way (some e) := by
  simp [setOf, write, same]

theorem setOf_write_of_ne (other : routeSetOf k ≠ routeSetOf key) :
    (table.write key way e).setOf k = table.setOf k := by
  simp [setOf, write, Function.update_of_ne other]

theorem full_write (full : Ways.Full (table.setOf k)) :
    Ways.Full ((table.write key way e).setOf k) := by
  by_cases same : routeSetOf k = routeSetOf key
  · rw [setOf_write_of_same same]
    exact full.update
  · rwa [setOf_write_of_ne same]

/-- Writing a way with another key changes no lookup. -/
theorem entry_write_of_ne (other : e.key ≠ k)
    (before : ∀ f, table.setOf key way = some f → f.key ≠ k) :
    (table.write key way e).entry k = table.entry k := by
  by_cases same : routeSetOf k = routeSetOf key
  · rw [entry, setOf_write_of_same same, entry]
    refine Ways.entry_update_of_ne ?_ other
    rw [Bool.eq_false_iff, ne_eq, Ways.carries_iff]
    rintro ⟨f, valid, carried⟩
    refine before f ?_ carried
    rw [setOf, ← same]
    exact valid
  · rw [entry, setOf_write_of_ne same, entry]

theorem emptyWay_some (free : table.emptyWay key = some way) : table.setOf key way = none := by
  simpa using List.find?_some free

theorem emptyWay_none (saturated : table.emptyWay key = none) :
    Ways.Full (table.setOf key) := by
  intro way
  simpa using List.find?_eq_none.mp saturated way (List.mem_finRange way)

/-- What a step may do to the lookups of a key: it keeps the entry, or it inserts one that has
numbered nothing. -/
structure Extends (k : Key) (table table' : Table) : Prop where
  entry : table'.entry k = table.entry k ∨
    table.entry k = none ∧ ¬ Ways.Full (table.setOf k) ∧
      ∃ e, table'.entry k = some e ∧ ∀ direction, e.udpTxSeq direction = 0
  full : Ways.Full (table.setOf k) → Ways.Full (table'.setOf k)

theorem Extends.refl (k : Key) (table : Table) : Extends k table table := ⟨.inl rfl, id⟩

/-- A route lookup leaves the table alone, or it writes a new entry to a free way. -/
theorem dpFlowRouteGet_cases (table : Table) (pkt : Packet) (hint : ℤ) :
    (table.dpFlowRouteGet pkt hint).1 = table ∧
        (∀ key direction, dpRouteKeyParseDirection pkt = some (key, direction) →
          table.entry key ≠ none ∨ Ways.Full (table.setOf key)) ∨
      ∃ key direction way e, dpRouteKeyParseDirection pkt = some (key, direction) ∧
        table.entry key = none ∧ table.setOf key way = none ∧ e.key = key ∧
        (∀ direction, e.udpTxSeq direction = 0) ∧
        (table.dpFlowRouteGet pkt hint).1.routes = (table.write key way e).routes := by
  unfold dpFlowRouteGet
  cases parsed : dpRouteKeyParseDirection pkt with
  | none => exact .inl ⟨rfl, fun _ _ h => by cases h⟩
  | some found =>
    obtain ⟨key, direction⟩ := found
    dsimp only
    cases present : table.entry key with
    | some e =>
      refine .inl ⟨rfl, fun _ _ h => .inl ?_⟩
      cases h
      rw [present]
      exact Option.some_ne_none e
    | none =>
      cases free : table.emptyWay key with
      | none =>
        refine .inl ⟨rfl, fun _ _ h => .inr ?_⟩
        cases h
        exact emptyWay_none free
      | some way =>
        exact .inr ⟨key, direction, way, _, rfl, present, emptyWay_some free, rfl, fun _ => rfl,
          rfl⟩

theorem dpFlowRouteGet_extends (k : Key) (table : Table) (pkt : Packet) (hint : ℤ) :
    Extends k table (table.dpFlowRouteGet pkt hint).1 := by
  rcases dpFlowRouteGet_cases table pkt hint with
    ⟨same, -⟩ | ⟨key, _, way, e, -, absent, free, carried, fresh, routes⟩
  · rw [same]
    exact .refl k table
  refine ⟨?_, fun full => ?_⟩
  · rw [entry_congr routes]
    by_cases same : k = key
    · subst same
      refine .inr ⟨absent, fun full => full way free, e, ?_, fresh⟩
      rw [entry, setOf_write_of_same rfl]
      exact Ways.entry_update_absent (Ways.entry_eq_none_iff.mp absent) carried
    · refine .inl (entry_write_of_ne ?_ fun f valid => ?_)
      · rw [carried]
        exact Ne.symm same
      · rw [free] at valid
        cases valid
  · rw [setOf_congr routes]
    exact full_write full

/-- After a route lookup the key has an entry, or there is no room for one. -/
theorem dpFlowRouteGet_settles {pkt : Packet} {direction : Bool} (hint : ℤ)
    (parsed : dpRouteKeyParseDirection pkt = some (key, direction)) :
    (table.dpFlowRouteGet pkt hint).1.entry key ≠ none ∨
      Ways.Full ((table.dpFlowRouteGet pkt hint).1.setOf key) := by
  rcases dpFlowRouteGet_cases table pkt hint with
    ⟨same, settled⟩ | ⟨key', _, way, e, parsed', absent, -, carried, -, routes⟩
  · rw [same]
    exact settled key direction parsed
  · rw [parsed] at parsed'
    cases parsed'
    rw [entry_congr routes, entry, setOf_write_of_same rfl,
      Ways.entry_update_absent (Ways.entry_eq_none_iff.mp absent) carried]
    exact .inl (Option.some_ne_none e)

theorem takeSeq_eq_none_iff {direction : Bool} :
    table.takeSeq key direction = none ↔ table.entry key = none := by
  rw [entry, Ways.entry_eq_none_iff]
  unfold takeSeq findWay
  cases found : Ways.find Entry.key (table.setOf key) key with
  | none => simp
  | some way =>
    obtain ⟨e, valid, -⟩ := Ways.find_some found
    simp [valid]

/-- The number taken from an entry, and what becomes of it. -/
theorem takeSeq_some {direction : Bool} {seq : BitVec 32}
    (taken : table.takeSeq key direction = some (table', seq)) :
    ∃ e, table.entry key = some e ∧ seq = (e.udpTxSeq direction).setWidth 32 ∧
      table'.entry key = some { e with
        udpTxSeq := Function.update e.udpTxSeq direction (e.udpTxSeq direction + 1) } ∧
      (∀ k ≠ key, table'.entry k = table.entry k) ∧
      ∀ k, Ways.Full (table.setOf k) → Ways.Full (table'.setOf k) := by
  obtain ⟨way, found, h⟩ := Option.bind_eq_some_iff.mp taken
  obtain ⟨e, valid, h⟩ := Option.map_eq_some_iff.mp h
  cases h
  obtain ⟨f, valid', carried⟩ := Ways.find_some found
  rw [valid] at valid'
  cases valid'
  refine ⟨e, Ways.entry_of_find found valid, rfl, ?_, fun k other => ?_, fun k => full_write⟩
  · rw [entry, setOf_write_of_same rfl]
    exact Ways.entry_update_found found carried
  · refine entry_write_of_ne ?_ fun f here => ?_
    · rw [carried]
      exact Ne.symm other
    · rw [valid] at here
      cases here
      rw [carried]
      exact Ne.symm other

end Table

namespace Local

variable {l : Local} {key k : Key} {way : Fin 4} {direction : Bool} {f : Fallback}

/-- The entry of a key. -/
def entry (l : Local) (key : Key) : Option Fallback := Ways.entry Fallback.key (l.setOf key) key

/-- The number that the next packet of a direction gets. -/
def value (l : Local) (key : Key) (direction : Bool) : BitVec 32 :=
  ((l.entry key).map fun f => f.nextSeq direction).getD 0

/-- The entry that a packet of the key overwrites. -/
def victim (l : Local) (key : Key) : Option Fallback :=
  match l.scan key 0 (List.finRange 4) with
  | .inl _ => none
  | .inr way => l.setOf key way

/-- No key has two entries, and none has one outside its set. -/
structure Sound (l : Local) : Prop where
  distinct : ∀ set, Ways.Distinct Fallback.key (l.fallback set)
  inSet : ∀ set way f, l.fallback set way = some f → fallbackSetOf f.key = set

theorem sound_init : init.Sound :=
  ⟨fun _ _ _ _ _ h _ _ => (by cases h), fun _ _ _ h => (by cases h)⟩

/-- The scan ends at the way that a search of the ways finds. -/
theorem scan_of_find?_some (v : Fin 4) {ways : List (Fin 4)}
    (found : ways.find? (Ways.carries Fallback.key (l.setOf key) key) = some way) :
    l.scan key v ways = .inl way := by
  induction ways generalizing v with
  | nil => cases found
  | cons i ways ih =>
    rw [List.find?_cons] at found
    unfold scan
    cases here : l.setOf key i with
    | none =>
      rw [Ways.carries, here] at found
      exact ih i found
    | some f =>
      rw [Ways.carries, here] at found
      dsimp only [Option.any_some] at found ⊢
      by_cases same : f.key = key
      · rw [decide_eq_true same] at found
        cases found
        exact if_pos same
      · rw [decide_eq_false same] at found
        rw [if_neg same]
        split
        · exact ih i found
        · exact ih v found

theorem scan_of_find?_none (v : Fin 4) {ways : List (Fin 4)}
    (absent : ways.find? (Ways.carries Fallback.key (l.setOf key) key) = none) :
    ∃ victim, l.scan key v ways = .inr victim := by
  induction ways generalizing v with
  | nil => exact ⟨v, rfl⟩
  | cons i ways ih =>
    rw [List.find?_cons] at absent
    unfold scan
    cases here : l.setOf key i with
    | none =>
      rw [Ways.carries, here] at absent
      exact ih i absent
    | some f =>
      rw [Ways.carries, here] at absent
      dsimp only [Option.any_some] at absent ⊢
      by_cases same : f.key = key
      · rw [decide_eq_true same] at absent
        cases absent
      · rw [decide_eq_false same] at absent
        rw [if_neg same]
        split
        · exact ih i absent
        · exact ih v absent

variable {next : Bool → BitVec 32}

theorem setOf_write_of_same (same : fallbackSetOf k = fallbackSetOf key) :
    (l.write key way next).setOf k =
      Function.update (l.setOf k) way (some ⟨key, next, l.stamp + 1⟩) := by
  simp [setOf, write, same]

theorem setOf_write_of_ne (other : fallbackSetOf k ≠ fallbackSetOf key) :
    (l.write key way next).setOf k = l.setOf k := by
  simp [setOf, write, Function.update_of_ne other]

theorem value_of_entry (present : l.entry key = some f) :
    l.value key direction = f.nextSeq direction := by
  rw [value, present]
  rfl

theorem value_of_absent (absent : l.entry key = none) : l.value key direction = 0 := by
  rw [value, absent]
  rfl

/-- A write to the way of the key, or to any way when no way has it. -/
theorem value_write_self (at_key : Ways.find Fallback.key (l.setOf key) key = some way ∨
    l.entry key = none) :
    (l.write key way next).value key direction = next direction := by
  have after : (l.write key way next).entry key = some ⟨key, next, l.stamp + 1⟩ := by
    rw [entry, setOf_write_of_same rfl]
    rcases at_key with found | absent
    · exact Ways.entry_update_found found rfl
    · exact Ways.entry_update_absent (Ways.entry_eq_none_iff.mp absent) rfl
  exact value_of_entry after

/-- A write over a way of another key leaves the next numbers of a key alone. -/
theorem value_write_of_ne (other : k ≠ key)
    (before : ∀ f, l.setOf key way = some f → f.key ≠ k) :
    (l.write key way next).value k direction = l.value k direction := by
  by_cases same : fallbackSetOf k = fallbackSetOf key
  · rw [value, value, entry, entry, setOf_write_of_same same, Ways.entry_update_of_ne ?_
      (Ne.symm other)]
    rw [Bool.eq_false_iff, ne_eq, Ways.carries_iff]
    rintro ⟨f, valid, carried⟩
    refine before f ?_ carried
    rw [setOf, ← same]
    exact valid
  · rw [value, value, entry, entry, setOf_write_of_ne same]

/-- A write over the way of a key starts its numbers again. -/
theorem value_write_over (sound : l.Sound) (other : k ≠ key) (valid : l.setOf key way = some f)
    (evicted : f.key = k) :
    (l.write key way next).value k direction = 0 ∧ l.value k direction = f.nextSeq direction := by
  have same : fallbackSetOf k = fallbackSetOf key := by
    rw [← evicted]
    exact sound.inSet _ way f valid
  have valid : l.setOf k way = some f := by
    rw [setOf, same]
    exact valid
  constructor
  · refine value_of_absent ?_
    rw [entry, setOf_write_of_same same]
    exact Ways.entry_update_evicts (sound.distinct _) valid evicted (Ne.symm other)
  · exact value_of_entry (Ways.entry_of_distinct (sound.distinct _) valid evicted)

/-- A packet of the key steps its entry, or overwrites a way when it has none. -/
theorem fallbackSeq_cases (l : Local) (key : Key) (direction : Bool) :
    ∃ way next, l.fallbackSeq key direction = (l.write key way next, l.value key direction) ∧
      next direction = l.value key direction + 1 ∧
      (∀ other ≠ direction, next other = l.value key other) ∧
      ((∃ f, l.setOf key way = some f ∧ f.key = key ∧ l.victim key = none ∧
          Ways.find Fallback.key (l.setOf key) key = some way) ∨
        l.entry key = none ∧ l.victim key = l.setOf key way) := by
  cases found : Ways.find Fallback.key (l.setOf key) key with
  | some way =>
    obtain ⟨f, valid, carried⟩ := Ways.find_some found
    have scanned := scan_of_find?_some 0 found
    have value (d : Bool) : l.value key d = f.nextSeq d :=
      value_of_entry (Ways.entry_of_find found valid)
    refine ⟨way, Function.update f.nextSeq direction (f.nextSeq direction + 1), ?_, ?_, ?_,
      .inl ⟨f, valid, carried, ?_, rfl⟩⟩
    · simp only [fallbackSeq, scanned, valid, Option.map_some, Option.getD_some, value]
    · rw [Function.update_self, value]
    · intro other ne
      rw [Function.update_of_ne ne, value]
    · rw [victim, scanned]
  | none =>
    obtain ⟨way, scanned⟩ := scan_of_find?_none 0 found
    have absent : l.entry key = none := Ways.entry_eq_none_iff.mpr found
    have value (d : Bool) : l.value key d = 0 := value_of_absent absent
    refine ⟨way, Function.update (fun _ => 0) direction 1, ?_, ?_, ?_, .inr ⟨absent, ?_⟩⟩
    · simp only [fallbackSeq, scanned, value]
    · rw [Function.update_self, value]
      rfl
    · intro other ne
      rw [Function.update_of_ne ne, value]
    · rw [victim, scanned]

/-- The number given is the next one. -/
theorem fallbackSeq_snd (l : Local) (key : Key) (direction : Bool) :
    (l.fallbackSeq key direction).2 = l.value key direction := by
  obtain ⟨_, _, given, -⟩ := fallbackSeq_cases l key direction
  rw [given]

theorem Sound.write (sound : l.Sound)
    (written : (∃ f, l.setOf key way = some f ∧ f.key = key) ∨ l.entry key = none) :
    (l.write key way next).Sound := by
  constructor
  · intro set
    by_cases here : set = fallbackSetOf key
    · subst here
      simp only [Local.write, Function.update_self]
      rcases written with ⟨f, valid, carried⟩ | absent
      · exact (sound.distinct _).update_same valid carried.symm
      · exact (sound.distinct _).update_absent (Ways.entry_eq_none_iff.mp absent)
    · simp only [Local.write, Function.update_of_ne here]
      exact sound.distinct set
  · intro set i f valid
    by_cases here : set = fallbackSetOf key
    · subst here
      simp only [Local.write, Function.update_self] at valid
      by_cases written : i = way
      · subst written
        rw [Function.update_self] at valid
        cases valid
        rfl
      · rw [Function.update_of_ne written] at valid
        exact sound.inSet _ i f valid
    · simp only [Local.write, Function.update_of_ne here] at valid
      exact sound.inSet set i f valid

theorem sound_fallbackSeq (sound : l.Sound) (key : Key) (direction : Bool) :
    (l.fallbackSeq key direction).1.Sound := by
  obtain ⟨way, next, given, -, -, ⟨f, valid, carried, -⟩ | ⟨absent, -⟩⟩ :=
    fallbackSeq_cases l key direction
  · rw [given]
    exact sound.write (.inl ⟨f, valid, carried⟩)
  · rw [given]
    exact sound.write (.inr absent)

/-- What a packet does to the next number of a direction: its own one is stepped, the number of an
overwritten entry starts again, and the others stay. -/
theorem fallbackSeq_value (sound : l.Sound) (key k : Key) (direction d : Bool) :
    (l.fallbackSeq key direction).1.value k d = (if k = key ∧ d = direction then l.value k d + 1
      else if (l.victim key).any fun f => f.key = k then 0 else l.value k d) ∧
    ∀ f, l.victim key = some f → f.key = k → k ≠ key ∧ l.value k d = f.nextSeq d := by
  obtain ⟨way, next, given, stepped, others, written⟩ := fallbackSeq_cases l key direction
  rw [given]
  by_cases same : k = key
  · subst same
    have own : (l.write k way next).value k d = next d := by
      rcases written with ⟨_, _, _, _, found⟩ | ⟨absent, _⟩
      · exact value_write_self (.inl found)
      · exact value_write_self (.inr absent)
    have not_victim : ∀ f, l.victim k = some f → f.key ≠ k := by
      intro f overwritten carried
      rcases written with ⟨_, _, _, none, _⟩ | ⟨absent, victim⟩
      · rw [none] at overwritten
        cases overwritten
      · rw [victim] at overwritten
        exact Ways.find_eq_none_iff.mp (Ways.entry_eq_none_iff.mp absent) way f overwritten carried
    refine ⟨?_, fun f overwritten carried => absurd carried (not_victim f overwritten)⟩
    rw [own]
    by_cases same : d = direction
    · subst same
      rw [if_pos ⟨rfl, rfl⟩, stepped]
    · have spared : (l.victim k).any (fun f => f.key = k) = false := by
        rw [Bool.eq_false_iff, ne_eq, Option.any_eq_true]
        rintro ⟨f, overwritten, carried⟩
        exact not_victim f overwritten (by simpa using carried)
      rw [if_neg (fun h => same h.2), spared, others d same]
      rfl
  · rw [if_neg (fun h => same h.1)]
    rcases written with ⟨f, valid, carried, none, _⟩ | ⟨_, victim⟩
    · rw [none]
      refine ⟨value_write_of_ne same fun f' valid' => ?_, fun _ h => by cases h⟩
      rw [valid] at valid'
      cases valid'
      rw [carried]
      exact Ne.symm same
    · rw [victim]
      cases valid : l.setOf key way with
      | none =>
        refine ⟨value_write_of_ne same fun f' valid' => ?_, fun _ h => by cases h⟩
        rw [valid] at valid'
        cases valid'
      | some f =>
        by_cases carried : f.key = k
        · have past : (l.write key way next).value k d = 0 ∧ l.value k d = f.nextSeq d :=
            value_write_over sound same valid carried
          refine ⟨by simpa [carried] using past.1, fun f' h _ => ?_⟩
          cases h
          exact ⟨same, past.2⟩
        · refine ⟨?_, fun f' h carried' => ?_⟩
          · rw [Option.any_some, decide_eq_false carried]
            refine value_write_of_ne same fun f' valid' => ?_
            rw [valid] at valid'
            cases valid'
            exact carried
          · cases h
            exact absurd carried' carried

end Local

end NeEncryptor.Route
