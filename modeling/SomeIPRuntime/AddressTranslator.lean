import SomeIPRuntime.Address
import SomeIPRuntime.SearchTrees

set_option autoImplicit false

/-!
# AddressTranslator

The three maps between CommonAPI addresses, which are any totally ordered keys, and
SOME/IP addresses, whose order leaves wildcard versions aside. The mutex
makes each call one step. `aliases` is `COMMONAPI_ENABLE_ADDRESS_ALIASES`.
-/
namespace SomeIPRuntime
open SearchTrees

/-- `vsomeip::ANY_MAJOR` -/
def anyMajorVersion : MajorVersion := 0xff

namespace Address

def Equals (a b : Address) : Prop :=
  a.service = b.service ∧ a.instance_ = b.instance_ ∧
    (a.majorVersion = anyMajorVersion ∨ b.majorVersion = anyMajorVersion ∨
      a.majorVersion = b.majorVersion)

def Less (a b : Address) : Prop :=
  a.service < b.service ∨ (a.service = b.service ∧ a.instance_ < b.instance_) ∨
    (a.service = b.service ∧ a.instance_ = b.instance_ ∧ a.majorVersion ≠ anyMajorVersion ∧
      b.majorVersion ≠ anyMajorVersion ∧ a.majorVersion < b.majorVersion)

instance : LT Address := ⟨Less⟩

instance (a b : Address) : Decidable (a.Equals b) := inferInstanceAs (Decidable (_ ∧ _))

instance (a b : Address) : Decidable (a.Less b) := inferInstanceAs (Decidable (_ ∨ _))

instance : DecidableLT Address := fun a b => inferInstanceAs (Decidable (a.Less b))

theorem lt_def (a b : Address) : a < b ↔ a.Less b := Iff.rfl

instance : IsStrictOrder Address (· < ·) where
  irrefl a h := by
    rw [lt_def, Less] at h
    simp only [BitVec.lt_def] at h
    omega
  trans a b c h h' := by
    rw [lt_def, Less] at h h' ⊢
    simp only [BitVec.lt_def, ← BitVec.toNat_inj, Ne] at h h' ⊢
    omega

theorem incomparable_iff (a b : Address) : Incomparable a b ↔ a.Equals b := by
  unfold Incomparable
  rw [lt_def, lt_def, Less, Less, Equals]
  simp only [BitVec.lt_def, ← BitVec.toNat_inj, Ne]
  omega

/-- A wildcard cannot be told from two versions that can be told from each other. -/
example : Incomparable (⟨1, 1, 1, 0⟩ : Address) ⟨1, 1, anyMajorVersion, 0⟩ ∧
    Incomparable (⟨1, 1, anyMajorVersion, 0⟩ : Address) ⟨1, 1, 2, 0⟩ ∧
    ¬ Incomparable (⟨1, 1, 1, 0⟩ : Address) ⟨1, 1, 2, 0⟩ := by
  decide

section Keys
variable {V : Type}

theorem keys_apart (m : SearchMap Address V) : m.entries.Pairwise fun e e' => ¬ e.1.Equals e'.1 := by
  refine m.sorted.imp fun hlt hequal => ?_
  exact ((incomparable_iff _ _).2 hequal).1 hlt

theorem find_isSome_iff (m : SearchMap Address V) (k : Address) :
    (m.find k).isSome ↔ ∃ e ∈ m.entries, e.1.Equals k := by
  rw [← Option.ne_none_iff_isSome, Ne, SearchMap.find_eq_none_iff]
  simp only [incomparable_iff, not_forall, not_not, exists_prop]

theorem find_lowest {m : SearchMap Address V} {k : Address} {entry : Address × V}
    (h : m.find k = some entry) :
    entry ∈ m.entries ∧ entry.1.Equals k ∧
      ∀ e ∈ m.entries, e.1.Equals k → entry.1.majorVersion ≤ e.1.majorVersion := by
  obtain ⟨hentry, hsame, hleast⟩ := SearchMap.find_least h
  rw [incomparable_iff] at hsame
  refine ⟨hentry, hsame, fun e he hequal => ?_⟩
  obtain rfl | hlt := hleast e he ((incomparable_iff _ _).2 hequal)
  · exact BitVec.le_refl _
  · obtain hservice | ⟨_, hinstance⟩ | ⟨_, _, _, _, hmajor⟩ := hlt
    · rw [hsame.1, hequal.1] at hservice
      exact absurd hservice (BitVec.lt_irrefl _)
    · rw [hsame.2.1, hequal.2.1] at hinstance
      exact absurd hinstance (BitVec.lt_irrefl _)
    · exact BitVec.le_of_lt hmajor

end Keys

end Address

namespace AddressTranslation

structure AddressTranslator (C : Type) [LinearOrder C] where
  forwards : SearchMap C Address
  backwards : SearchMap Address C
  others : SearchMap C C

namespace AddressTranslator
variable {C : Type} [LinearOrder C]

/-- A call of `insert`, with the rotations that it makes. -/
structure Call (C : Type) where
  address : C
  someipAddress : Address
  forwardsBalancing : Balancing C Address
  backwardsBalancing : Balancing Address C
  othersBalancing : Balancing C C

def init : AddressTranslator C := ⟨.empty, .empty, .empty⟩

def translate (aliases : Bool) (t : AddressTranslator C) (key : C) : Option Address :=
  let itsKey :=
    if aliases then
      match t.others.find key with
      | some itsOther => itsOther.2
      | none => key
    else key
  (t.forwards.find itsKey).map Prod.snd

def translateBack (t : AddressTranslator C) (key : Address) : Option C :=
  (t.backwards.find key).map Prod.snd

def minServiceId : ServiceId := 0x0001
def maxServiceId : ServiceId := 0xfffd
def minInstanceId : InstanceId := 0x0001
def maxInstanceId : InstanceId := 0xfffe

def isValidService (service : ServiceId) : Bool :=
  !(service < minServiceId || service > maxServiceId)

def isValidInstance (instance_ : InstanceId) : Bool :=
  !(instance_ < minInstanceId || instance_ > maxInstanceId)

def insert (aliases : Bool) (t : AddressTranslator C) (call : Call C) : AddressTranslator C :=
  if isValidService call.someipAddress.service && isValidInstance call.someipAddress.instance_ then
    match t.forwards.find call.address, t.backwards.find call.someipAddress with
    | none, none =>
      { t with
        forwards := t.forwards.set call.forwardsBalancing call.address call.someipAddress
        backwards := t.backwards.set call.backwardsBalancing call.someipAddress call.address }
    | _, some bw =>
      if bw.2 ≠ call.address ∧ aliases then
        { t with others := t.others.set call.othersBalancing call.address bw.2 }
      else t
    | some _, none => t
  else t

def after (aliases : Bool) (calls : List (Call C)) : AddressTranslator C :=
  calls.foldl (insert aliases) init

def Inverse (t : AddressTranslator C) : Prop :=
  ∀ c s, (c, s) ∈ t.forwards.entries ↔ (s, c) ∈ t.backwards.entries

theorem insert_cases (aliases : Bool) (t : AddressTranslator C) (call : Call C) :
    insert aliases t call = t ∨
    ((isValidService call.someipAddress.service && isValidInstance call.someipAddress.instance_) =
      true ∧ t.forwards.find call.address = none ∧ t.backwards.find call.someipAddress = none ∧
      insert aliases t call =
        { t with
          forwards := t.forwards.set call.forwardsBalancing call.address call.someipAddress
          backwards := t.backwards.set call.backwardsBalancing call.someipAddress call.address }) ∨
    ∃ bw, (isValidService call.someipAddress.service &&
        isValidInstance call.someipAddress.instance_) = true ∧
      t.backwards.find call.someipAddress = some bw ∧ bw.2 ≠ call.address ∧ aliases = true ∧
      insert aliases t call =
        { t with others := t.others.set call.othersBalancing call.address bw.2 } := by
  unfold insert
  split
  · next hvalid =>
    split
    · next hfw hbw => exact Or.inr (Or.inl ⟨hvalid, hfw, hbw, rfl⟩)
    · next bw hbw =>
      split
      · next halias => exact Or.inr (Or.inr ⟨bw, hvalid, hbw, halias.1, halias.2, rfl⟩)
      · exact Or.inl rfl
    · exact Or.inl rfl
  · exact Or.inl rfl

theorem inverse_init : Inverse (init (C := C)) := fun _ _ => iff_of_false nofun nofun

theorem inverse_insert (aliases : Bool) {t : AddressTranslator C} (h : Inverse t) (call : Call C) :
    Inverse (insert aliases t call) := by
  obtain hsame | ⟨_, hfw, hbw, hnew⟩ | ⟨bw, _, _, _, _, halias⟩ := insert_cases aliases t call
  · rw [hsame]
    exact h
  · have hfw := SearchMap.find_eq_none_iff.1 hfw
    have hbw := SearchMap.find_eq_none_iff.1 hbw
    intro c s
    rw [hnew]
    dsimp only
    rw [SearchMap.mem_set _ fun _ _ => incomparable_iff_eq.1,
      SearchMap.mem_set _ fun e he hsame => absurd hsame (hbw e he), h c s]
    have hc : (s, c) ∈ t.backwards.entries → c ≠ call.address := fun he heq =>
      hfw (c, s) ((h c s).2 he) (incomparable_iff_eq.2 heq)
    have hs : (s, c) ∈ t.backwards.entries → s ≠ call.someipAddress := fun he heq =>
      hbw (s, c) he (heq ▸ ⟨irrefl_of (· < ·) s, irrefl_of (· < ·) s⟩)
    grind
  · rw [halias]
    exact h

theorem after_append (aliases : Bool) (calls : List (Call C)) (call : Call C) :
    after aliases (calls ++ [call]) = insert aliases (after aliases calls) call := by
  unfold after
  rw [List.foldl_append]
  rfl

theorem inverse_after (aliases : Bool) (calls : List (Call C)) : Inverse (after aliases calls) := by
  induction calls using List.reverseRecOn with
  | nil => exact inverse_init
  | append_singleton calls call ih =>
    rw [after_append]
    exact inverse_insert aliases ih call

/-- The lookups in both directions, of the addresses themselves. -/
theorem Inverse.find_iff {t : AddressTranslator C} (h : Inverse t) (c : C) (s : Address) :
    t.forwards.find c = some (c, s) ↔ t.backwards.find s = some (s, c) := by
  rw [SearchMap.find_eq_some_iff, and_iff_left rfl, h c s]
  exact ⟨SearchMap.find_entry, fun hfind => (SearchMap.find_least hfind).1⟩

/-- The maps are inverse to each other after any calls, the keys of `backwards` can be told
    from each other, and the search for a SOME/IP address finds one of them where there is
    an equal one, the one with the lowest version. -/
theorem address_maps_inverse (aliases : Bool) (calls : List (Call C)) :
    (∀ c s, (after aliases calls).forwards.find c = some (c, s) ↔
      (after aliases calls).backwards.find s = some (s, c)) ∧
    ((after aliases calls).backwards.entries.Pairwise fun e e' => ¬ e.1.Equals e'.1) ∧
    ∀ k, (((after aliases calls).backwards.find k).isSome ↔
        ∃ e ∈ (after aliases calls).backwards.entries, e.1.Equals k) ∧
      ∀ entry, (after aliases calls).backwards.find k = some entry →
        entry ∈ (after aliases calls).backwards.entries ∧ entry.1.Equals k ∧
          ∀ e ∈ (after aliases calls).backwards.entries, e.1.Equals k →
            entry.1.majorVersion ≤ e.1.majorVersion :=
  ⟨(inverse_after aliases calls).find_iff, Address.keys_apart _, fun k =>
    ⟨Address.find_isSome_iff _ k, fun _ => Address.find_lowest⟩⟩

end AddressTranslator

end AddressTranslation

end SomeIPRuntime
