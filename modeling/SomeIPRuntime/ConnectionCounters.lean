import SomeIPRuntime.Factory

set_option autoImplicit false

namespace SomeIPRuntime.Factory

def Alive (s : State) (connection : Connection) : Prop :=
  s.connections.lookup connection.connectionId = some connection

instance (s : State) (connection : Connection) : Decidable (Alive s connection) :=
  inferInstanceAs (Decidable (_ = _))

/-- The connections that are alive are those with holders, and each counts its own. -/
structure Held (s : State) (holders : List Connection) : Prop where
  named : ∀ connectionId connection,
    s.connections.lookup connectionId = some connection → connection.connectionId = connectionId
  held : ∀ connection ∈ holders, Alive s connection
  used : ∀ connection, Alive s connection → connection ∈ holders
  counted : ∀ connection, Alive s connection →
    (s.activeConnections connection.object).toNat = holders.count connection
  different : ∀ a b, Alive s a → Alive s b → a.object = b.object → a = b
  made : ∀ connection, Alive s connection → connection.object < s.created
  unused : ∀ object, s.created ≤ object → s.activeConnections object = 0 ∧ object ∉ s.disconnected
  disconnected : ∀ object < s.created,
    object ∈ s.disconnected ↔ ∀ connection, Alive s connection → connection.object ≠ object
  neverBelow : s.belowZero = false

section Rules
variable {s t : State} {holders others : List Connection} {connection : Connection}

theorem held_initial : Held initial [] where
  named _ _ h := by cases h
  held _ h := by cases h
  used _ h := by cases h
  counted _ h := by cases h
  different _ _ h := by cases h
  made _ h := by cases h
  unused _ _ := ⟨rfl, Finset.notMem_empty _⟩
  disconnected object h := absurd h (Nat.not_lt_zero object)
  neverBelow := rfl

theorem Held.perm (h : Held s holders) (hperm : holders.Perm others) : Held s others where
  named := h.named
  held connection hmem := h.held connection (hperm.mem_iff.2 hmem)
  used connection halive := hperm.mem_iff.1 (h.used connection halive)
  counted connection halive := (h.counted connection halive).trans (hperm.count_eq connection)
  different := h.different
  made := h.made
  unused := h.unused
  disconnected := h.disconnected
  neverBelow := h.neverBelow

theorem Held.not_disconnected (h : Held s holders) (hmem : connection ∈ holders) :
    connection.object ∉ s.disconnected := by
  have halive := h.held connection hmem
  intro hdisconnected
  exact (h.disconnected connection.object (h.made connection halive)).1 hdisconnected connection halive rfl

theorem Held.frame (h : Held s holders) (hconnections : t.connections = s.connections)
    (hactive : t.activeConnections = s.activeConnections) (hcreated : t.created = s.created)
    (hdisconnected : t.disconnected = s.disconnected) (hbelow : t.belowZero = s.belowZero) :
    Held t holders := by
  obtain ⟨_, _, _, _, _, _, _, _, _, _⟩ := s
  obtain ⟨_, _, _, _, _, _, _, _, _, _⟩ := t
  cases hconnections
  cases hactive
  cases hcreated
  cases hdisconnected
  cases hbelow
  exact ⟨h.named, h.held, h.used, h.counted, h.different, h.made, h.unused, h.disconnected, h.neverBelow⟩

theorem incrementConnection_alive (halive : Alive s connection) :
    incrementConnection connection s =
      { s with
        activeConnections :=
          Function.update s.activeConnections connection.object
            (s.activeConnections connection.object + 1) } := by
  unfold incrementConnection
  rw [halive]

theorem toNat_increment {n : BitVec 32} (h : n ≠ BitVec.allOnes 32) : (n + 1).toNat = n.toNat + 1 := by
  have hne : n.toNat ≠ 2 ^ 32 - 1 := fun heq => h (BitVec.eq_of_toNat_eq (heq.trans (by decide)))
  have hlt := n.isLt
  rw [BitVec.toNat_add]
  exact Nat.mod_eq_of_lt (by change n.toNat + 1 < 2 ^ 32; omega)

theorem toNat_decrement {n : BitVec 32} (h : 0 < n.toNat) : (n - 1).toNat = n.toNat - 1 := by
  have hlt := n.isLt
  rw [BitVec.toNat_sub]
  change (2 ^ 32 - 1 + n.toNat) % 2 ^ 32 = n.toNat - 1
  omega

theorem Held.increment (h : Held s holders) (halive : Alive s connection)
    (hmax : s.activeConnections connection.object ≠ BitVec.allOnes 32) :
    Held (incrementConnection connection s) (connection :: holders) := by
  rw [incrementConnection_alive halive]
  refine ⟨h.named, fun other hmem => ?_,
    fun other hother => List.mem_cons_of_mem _ (h.used other hother), fun other hother => ?_,
    h.different, h.made, fun object hobject => ?_, h.disconnected, h.neverBelow⟩
  · obtain heq | hold := List.mem_cons.1 hmem
    · rw [heq]
      exact halive
    · exact h.held other hold
  · by_cases heq : other = connection
    · rw [heq, List.count_cons_self, ← h.counted connection halive, ← toNat_increment hmax]
      dsimp only
      rw [Function.update_self]
    · have hobject : other.object ≠ connection.object := fun hsame =>
        heq (h.different other connection hother halive hsame)
      rw [List.count_cons_of_ne (Ne.symm heq), ← h.counted other hother]
      dsimp only
      rw [Function.update_of_ne hobject]
  · have hne : object ≠ connection.object := by
      have hmade := h.made connection halive
      change s.created ≤ object at hobject
      omega
    dsimp only
    rw [Function.update_of_ne hne]
    exact h.unused object hobject

theorem alive_insert {connectionId : ConnectionId} (hnone : s.connections.lookup connectionId = none)
    (object : ℕ) (other : Connection) :
    (s.connections.insert connectionId ⟨object, connectionId⟩).lookup other.connectionId = some other ↔
      other = ⟨object, connectionId⟩ ∨ Alive s other := by
  by_cases heq : other.connectionId = connectionId
  · rw [heq, AList.lookup_insert]
    refine ⟨fun h => .inl (Option.some.inj h).symm, ?_⟩
    rintro (hnew | hold)
    · rw [hnew]
    · unfold Alive at hold
      rw [heq, hnone] at hold
      cases hold
  · rw [AList.lookup_insert_ne heq]
    refine ⟨.inr, fun h => h.resolve_left fun hnew => heq (congrArg Connection.connectionId hnew)⟩

theorem Held.create (h : Held s holders) {connectionId : ConnectionId}
    (hnone : s.connections.lookup connectionId = none) :
    Held (incrementConnection ⟨s.created, connectionId⟩
        { s with
          connections := s.connections.insert connectionId ⟨s.created, connectionId⟩
          created := s.created + 1 }) (⟨s.created, connectionId⟩ :: holders) := by
  have hiff := alive_insert hnone s.created
  have hmade : ∀ other, Alive s other → other.object ≠ s.created := fun other hother =>
    (h.made other hother).ne
  have halive : Alive
      { s with
        connections := s.connections.insert connectionId ⟨s.created, connectionId⟩
        created := s.created + 1 } ⟨s.created, connectionId⟩ := (hiff _).2 (.inl rfl)
  rw [incrementConnection_alive halive]
  refine ⟨fun id other hother => ?_, fun other hmem => (hiff other).2 ?_, fun other hother => ?_,
    fun other hother => ?_, fun a b ha hb heq => ?_, fun other hother => ?_, fun object hobject => ?_,
    fun object hobject => ⟨fun hmem other hother => ?_, fun hne => ?_⟩, h.neverBelow⟩
  · change (s.connections.insert connectionId _).lookup id = _ at hother
    by_cases heq : id = connectionId
    · rw [heq, AList.lookup_insert] at hother
      cases hother
      exact heq.symm
    · rw [AList.lookup_insert_ne heq] at hother
      exact h.named id other hother
  · exact (List.mem_cons.1 hmem).imp_right (h.held other)
  · exact List.mem_cons.2 (((hiff other).1 hother).imp_right (h.used other))
  · obtain heq | hother := (hiff other).1 hother
    · have hnotMem : other ∉ holders := fun hmem =>
        hmade other (h.held other hmem) (congrArg Connection.object heq)
      rw [← heq, List.count_cons_self, List.count_eq_zero.2 hnotMem, heq]
      dsimp only
      rw [Function.update_self, (h.unused s.created le_rfl).1]
      rfl
    · have hne : (⟨s.created, connectionId⟩ : Connection) ≠ other := fun heq =>
        hmade other hother (congrArg Connection.object heq).symm
      rw [List.count_cons_of_ne hne, ← h.counted other hother]
      dsimp only
      rw [Function.update_of_ne (hmade other hother)]
  · obtain ha | ha := (hiff a).1 ha <;> obtain hb | hb := (hiff b).1 hb
    · exact ha.trans hb.symm
    · exact absurd (heq.symm.trans (congrArg Connection.object ha)) (hmade b hb)
    · exact absurd (heq.trans (congrArg Connection.object hb)) (hmade a ha)
    · exact h.different a b ha hb heq
  · change other.object < s.created + 1
    obtain heq | hother := (hiff other).1 hother
    · rw [heq]
      exact Nat.lt_succ_self _
    · exact (h.made other hother).trans (Nat.lt_succ_self _)
  · change s.created + 1 ≤ object at hobject
    dsimp only
    rw [Function.update_of_ne (by omega)]
    exact h.unused object (by omega)
  · have hlt : object < s.created := by
      by_contra hge
      exact (h.unused object (not_lt.1 hge)).2 hmem
    obtain heq | hother := (hiff other).1 hother
    · rw [heq]
      exact hlt.ne'
    · exact (h.disconnected object hlt).1 hmem other hother
  · change object < s.created + 1 at hobject
    have hne' : s.created ≠ object := hne _ halive
    exact (h.disconnected object (by omega)).2 fun other hother => hne other ((hiff other).2 (.inr hother))

def Countable (s : State) (connectionId : ConnectionId) (application : Option ConnectionId) : Prop :=
  (∀ connection ∈ s.connections.lookup connectionId,
    s.activeConnections connection.object ≠ BitVec.allOnes 32) ∧
  (connectionId ∉ s.connections → ∀ name ∈ application, name = connectionId)

instance (s : State) (connectionId : ConnectionId) (application : Option ConnectionId) :
    Decidable (Countable s connectionId application) := inferInstanceAs (Decidable (_ ∧ _))

theorem Held.getConnection (h : Held s holders) {connectionId : ConnectionId}
    {application : Option ConnectionId} (hcountable : Countable s connectionId application)
    (hget : getConnection connectionId application s = some (connection, t)) :
    Held t (connection :: holders) := by
  unfold Factory.getConnection at hget
  cases hlookup : s.connections.lookup connectionId with
  | some found =>
    rw [hlookup] at hget
    cases hget
    have halive : Alive s connection := by
      unfold Alive
      rw [h.named connectionId connection hlookup]
      exact hlookup
    exact h.increment halive (hcountable.1 connection hlookup)
  | none =>
    rw [hlookup] at hget
    obtain ⟨name, hname, heq⟩ := Option.map_eq_some_iff.1 hget
    cases heq
    rw [hcountable.2 (AList.lookup_eq_none.1 hlookup) name hname]
    exact h.create hlookup

theorem Held.toNat (h : Held s (connection :: holders)) :
    (s.activeConnections connection.object).toNat = holders.count connection + 1 := by
  rw [h.counted connection (h.held connection List.mem_cons_self), List.count_cons_self]

theorem Held.counters (h : Held s (connection :: holders)) {other : Connection} (hother : Alive s other) :
    (Function.update s.activeConnections connection.object
      (s.activeConnections connection.object - 1) other.object).toNat = holders.count other := by
  have htoNat := h.toNat
  by_cases heq : other = connection
  · rw [heq, Function.update_self, toNat_decrement (by omega)]
    omega
  · have hobject : other.object ≠ connection.object := fun hsame =>
      heq (h.different other connection hother (h.held connection List.mem_cons_self) hsame)
    rw [Function.update_of_ne hobject, h.counted other hother, List.count_cons_of_ne (Ne.symm heq)]

theorem Held.counters_unused (h : Held s (connection :: holders)) {object : ℕ}
    (hobject : s.created ≤ object) :
    Function.update s.activeConnections connection.object
      (s.activeConnections connection.object - 1) object = 0 := by
  have hmade := h.made connection (h.held connection List.mem_cons_self)
  rw [Function.update_of_ne (by omega)]
  exact (h.unused object hobject).1

theorem Held.not_below (h : Held s (connection :: holders)) :
    (s.belowZero || decide (s.activeConnections connection.object = 0)) = false := by
  have htoNat := h.toNat
  have hne : s.activeConnections connection.object ≠ 0 := by
    intro heq
    rw [heq] at htoNat
    change 0 = _ at htoNat
    omega
  rw [h.neverBelow, decide_eq_false hne]
  rfl

theorem alive_erase (halive : Alive s connection) (other : Connection) :
    (s.connections.erase connection.connectionId).lookup other.connectionId = some other ↔
      Alive s other ∧ other ≠ connection := by
  by_cases heq : other.connectionId = connection.connectionId
  · rw [heq, AList.lookup_erase]
    refine iff_of_false (fun h => by cases h) fun ⟨hother, hne⟩ => hne ?_
    unfold Alive at hother
    rw [heq, halive] at hother
    exact (Option.some.inj hother).symm
  · rw [AList.lookup_erase_ne heq]
    exact ⟨fun hother => ⟨hother, fun hsame => heq (congrArg Connection.connectionId hsame)⟩,
      fun hother => hother.1⟩

theorem Held.last (h : Held s (connection :: holders)) (hnotMem : connection ∉ holders) :
    Held (disconnect connection
      { s with
        activeConnections :=
          Function.update s.activeConnections connection.object
            (s.activeConnections connection.object - 1)
        belowZero := s.belowZero || decide (s.activeConnections connection.object = 0) }) holders := by
  have halive := h.held connection List.mem_cons_self
  have hiff := alive_erase halive
  refine ⟨fun id other hlookup => ?_, fun other hmem => ?_, fun other hlookup => ?_,
    fun other hlookup => h.counters ((hiff other).1 hlookup).1,
    fun a b ha hb => h.different a b ((hiff a).1 ha).1 ((hiff b).1 hb).1,
    fun other hlookup => h.made other ((hiff other).1 hlookup).1,
    fun object hobject => ⟨h.counters_unused hobject, fun hmem => ?_⟩,
    fun object hobject => ⟨fun hmem other hlookup => ?_, fun hne => ?_⟩, h.not_below⟩
  · change (s.connections.erase connection.connectionId).lookup id = _ at hlookup
    by_cases heq : id = connection.connectionId
    · rw [heq, AList.lookup_erase] at hlookup
      cases hlookup
    · rw [AList.lookup_erase_ne heq] at hlookup
      exact h.named id other hlookup
  · exact (hiff other).2 ⟨h.held other (List.mem_cons_of_mem _ hmem), fun heq => hnotMem (heq ▸ hmem)⟩
  · obtain ⟨hold, hne⟩ := (hiff other).1 hlookup
    exact (List.mem_cons.1 (h.used other hold)).resolve_left hne
  · obtain heq | hmem := Finset.mem_insert.1 hmem
    · have hmade := h.made connection halive
      rw [← heq] at hmade
      exact absurd hmade (not_lt.2 hobject)
    · exact (h.unused object hobject).2 hmem
  · obtain ⟨hold, hne⟩ := (hiff other).1 hlookup
    obtain heq | hmem := Finset.mem_insert.1 hmem
    · rw [heq]
      exact fun hsame => hne (h.different other connection hold halive hsame)
    · exact (h.disconnected object hobject).1 hmem other hold
  · by_cases heq : object = connection.object
    · exact Finset.mem_insert.2 (.inl heq)
    · refine Finset.mem_insert_of_mem ((h.disconnected object hobject).2 fun other hold hsame => ?_)
      refine hne other ((hiff other).2 ⟨hold, fun hother => heq ?_⟩) hsame
      rw [← hother, hsame]

theorem Held.remains (h : Held s (connection :: holders)) (hmem : connection ∈ holders) :
    Held { s with
      activeConnections :=
        Function.update s.activeConnections connection.object
          (s.activeConnections connection.object - 1)
      belowZero := s.belowZero || decide (s.activeConnections connection.object = 0) } holders := by
  refine ⟨h.named, fun other hmem => h.held other (List.mem_cons_of_mem _ hmem), fun other halive => ?_,
    fun other => h.counters, h.different, h.made,
    fun object hobject => ⟨h.counters_unused hobject, (h.unused object hobject).2⟩, h.disconnected,
    h.not_below⟩
  obtain heq | hold := List.mem_cons.1 (h.used other halive)
  · rw [heq]
    exact hmem
  · exact hold

theorem Held.decrement (h : Held s (connection :: holders)) :
    Held (decrementConnection connection s) holders := by
  have htoNat := h.toNat
  have hdecrement := toNat_decrement (by omega : 0 < (s.activeConnections connection.object).toNat)
  unfold decrementConnection
  rw [h.held connection List.mem_cons_self]
  dsimp only
  split
  next hzero =>
    refine h.last (List.count_eq_zero.1 ?_)
    rw [hzero] at hdecrement
    change 0 = _ at hdecrement
    omega
  next hzero =>
    refine h.remains (List.count_pos_iff.1 ?_)
    by_contra hnone
    refine hzero (BitVec.eq_of_toNat_eq ?_)
    change _ = 0
    omega

end Rules

end SomeIPRuntime.Factory
