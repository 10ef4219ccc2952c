import Mathlib.Algebra.Order.BigOperators.Group.List
import AutopinPlus.AutopinSetup
import AutopinPlus.ClustSafeResponse
import AutopinPlus.EnergyLedger
import AutopinPlus.SignedWords

/-!
# The outlets of the ClustSafe device

The payload holds one word for each outlet. `readValueFromDevice` checks each configured outlet against the
size of the payload before it takes the word, and adds up the words. The check is made in `size_t`, where
outlet -1 wraps around to 0, and a word is read with a sign.
-/
namespace AutopinPlus

namespace ClustSafe

variable {D : Type}

/-- The word number `outlet` lies in the payload. -/
def InPayload (payload : List UInt8) (outlet : Int) : Prop := 0 ≤ outlet ∧ 4 * (outlet + 1) ≤ payload.length

instance (payload : List UInt8) (outlet : Int) : Decidable (InPayload payload outlet) :=
  inferInstanceAs (Decidable (_ ∧ _))

/-- The unsigned big-endian word number `outlet`. -/
def unsignedWord (payload : List UInt8) (outlet : Int) : Nat :=
  ((payload.drop (4 * outlet).toNat).take 4).foldl (fun w b => 256 * w + b.toNat) 0

theorem unsignedWord_lt (payload : List UInt8) (outlet : Int) : unsignedWord payload outlet < 2 ^ 32 := by
  have hfold : ∀ (bytes : List UInt8) (w : Nat),
      bytes.foldl (fun w b => 256 * w + b.toNat) w < 256 ^ bytes.length * (w + 1) := by
    intro bytes
    induction bytes with
    | nil => simp
    | cons b bytes ih =>
      intro w
      have hb := b.toNat_lt
      calc (b :: bytes).foldl (fun w b => 256 * w + b.toNat) w
          < 256 ^ bytes.length * (256 * w + b.toNat + 1) := ih _
        _ ≤ 256 ^ bytes.length * (256 * (w + 1)) := Nat.mul_le_mul_left _ (by omega)
        _ = 256 ^ (b :: bytes).length * (w + 1) := by rw [List.length_cons, Nat.pow_succ, Nat.mul_assoc]
  have hlength : ((payload.drop (4 * outlet).toNat).take 4).length ≤ 4 := List.length_take_le ..
  calc unsignedWord payload outlet
      < 256 ^ ((payload.drop (4 * outlet).toNat).take 4).length * (0 + 1) := hfold _ _
    _ ≤ 256 ^ 4 * (0 + 1) := Nat.mul_le_mul_right _ (Nat.pow_le_pow_right (by decide) hlength)
    _ = 2 ^ 32 := by decide

/-- What the loop adds for an outlet. -/
def signedWord (payload : List UInt8) (outlet : Int) : Int := Int.bmod (unsignedWord payload outlet) (2 ^ 32)

theorem foldl_natCast (bytes : List UInt8) (w : Nat) :
    bytes.foldl (fun w b => 256 * w + (b.toNat : Int)) w =
      (bytes.foldl (fun w b => 256 * w + b.toNat) w : Nat) := by
  induction bytes generalizing w with
  | nil => rfl
  | cons b bytes ih =>
    rw [List.foldl_cons, List.foldl_cons, ← ih]
    push_cast
    rfl

/-- A word outside the payload has no value, and one inside is read with a sign. -/
theorem word_eq (payload : List UInt8) (outlet : Int) :
    word payload outlet = if InPayload payload outlet then some (signedWord payload outlet) else none := by
  have hiff : (0 ≤ outlet ∧ 4 * outlet + 4 ≤ payload.length) ↔ InPayload payload outlet := by
    unfold InPayload
    omega
  have hsigned : ((payload.drop (4 * outlet).toNat).take 4).foldl (fun w b => 256 * w + (b.toNat : Int)) 0 =
      unsignedWord payload outlet := foldl_natCast _ 0
  by_cases hin : InPayload payload outlet
  · rw [if_pos hin, word, if_pos (hiff.mpr hin)]
    exact congrArg (fun w => some (Int.bmod w (2 ^ 32))) hsigned
  · rw [if_neg hin, word, if_neg (mt hiff.mp hin)]

/-! ## The check of an outlet -/

/-- In `size_t` the check also lets outlet -1 pass. -/
theorem check_iff {payload : List UInt8} (hsize : payload.length < 2 ^ 31) {outlet : Int}
    (hint : QString.inRange outlet = true) :
    (outlet * 4 + 4) % 2 ^ 64 ≤ payload.length % 2 ^ 32 ↔ InPayload payload outlet ∨ outlet = -1 := by
  simp only [QString.inRange, Bool.and_eq_true, decide_eq_true_eq] at hint
  unfold InPayload
  omega

/-- The outlet at which the loop stops: the first one outside the payload. -/
def firstOutside (payload : List UInt8) (outlets : List Int) : Option Int :=
  outlets.find? fun outlet => ¬ InPayload payload outlet

theorem firstOutside_cons_inside {payload : List UInt8} {outlet : Int} (h : InPayload payload outlet)
    (outlets : List Int) : firstOutside payload (outlet :: outlets) = firstOutside payload outlets :=
  List.find?_cons_of_neg (by simpa using h)

theorem firstOutside_cons_outside {payload : List UInt8} {outlet : Int} (h : ¬ InPayload payload outlet)
    (outlets : List Int) : firstOutside payload (outlet :: outlets) = some outlet :=
  List.find?_cons_of_pos (by simpa using h)

/-- The text thrown for an outlet without data. -/
def noData (outlet : Int) : String := "No data received for outlet #" ++ toString outlet ++ "."

section

variable {payload : List UInt8} {outlets : List Int}

theorem firstOutside_eq_none : firstOutside payload outlets = none ↔ ∀ o ∈ outlets, InPayload payload o := by
  simp [firstOutside]

/-- With all outlets inside the payload the loop adds up their words as they are read. -/
theorem sumOutlets_inside (hsize : payload.length < 2 ^ 31) (hin : ∀ o ∈ outlets, InPayload payload o) {value : Nat}
    (hvalue : value < 2 ^ 64) :
    sumOutlets payload outlets value = some (.ok
      ((value + (outlets.map (signedWord payload)).sum) % 2 ^ 64).toNat) := by
  induction outlets generalizing value with
  | nil =>
    have hmod : ((value : Int) + 0) % 2 ^ 64 = value := by omega
    rw [sumOutlets, List.map_nil, List.sum_nil, hmod, Int.toNat_natCast]
  | cons outlet outlets ih =>
    rw [List.forall_mem_cons] at hin
    have hcheck : (outlet * 4 + 4) % 2 ^ 64 ≤ payload.length % 2 ^ 32 := by
      have hinside := hin.1
      unfold InPayload at hinside
      omega
    have hsum : ∀ w rest : Int, ((((value + w) % 2 ^ 64).toNat : Int) + rest) % 2 ^ 64 =
        (value + (w + rest)) % 2 ^ 64 := by
      intro w rest
      omega
    rw [sumOutlets, if_pos hcheck, word_eq, if_pos hin.1, Option.bind_some, ih hin.2 (by omega), hsum,
      List.map_cons, List.sum_cons]

/-- Otherwise the first outlet outside ends it: -1 with an access there, any other one with an exception. -/
theorem sumOutlets_outside (hsize : payload.length < 2 ^ 31) (hint : ∀ o ∈ outlets, QString.inRange o = true)
    {outlet : Int} (hfirst : firstOutside payload outlets = some outlet) (value : Nat) :
    sumOutlets payload outlets value = if outlet = -1 then none else some (.error (noData outlet)) := by
  induction outlets generalizing value with
  | nil => cases hfirst
  | cons o outlets ih =>
    rw [List.forall_mem_cons] at hint
    have hcheck := check_iff hsize hint.1
    by_cases hin : InPayload payload o
    · rw [firstOutside_cons_inside hin] at hfirst
      rw [sumOutlets, if_pos (hcheck.mpr (.inl hin)), word_eq, if_pos hin, Option.bind_some, ih hint.2 hfirst]
    · rw [firstOutside_cons_outside hin] at hfirst
      cases hfirst
      by_cases hminus : outlet = -1
      · rw [sumOutlets, if_pos (hcheck.mpr (.inr hminus)), word_eq, if_neg hin, if_pos hminus, Option.bind_none]
      · have hfail : ¬ (outlet * 4 + 4) % 2 ^ 64 ≤ payload.length % 2 ^ 32 := by
          rw [hcheck]
          exact not_or.mpr ⟨hin, hminus⟩
        rw [sumOutlets, if_neg hfail, if_neg hminus]
        rfl

end

/-! ## What a reading of the device does -/

section

variable {k : Kernel D} {reset : Bool} {h : Host} {payload : List UInt8}

/-- The answer of a device that is asked and sends a payload. -/
theorem deviceRead_payload (hasks : asks k reset h = true) (hpayload : k.sendCommand (h.clock + 1) = .ok payload) :
    deviceRead k reset h = (sumOutlets payload h.clustSafe.outlets 0).map some := by
  rw [deviceRead, if_pos hasks, hpayload]

theorem readValueFromDevice_undefined (hd : deviceRead k reset h = none) : readValueFromDevice k reset h = none := by
  rw [readValueFromDevice_eq, hd, Option.map_none]

theorem readValueFromDevice_throws {what : String} (hd : deviceRead k reset h = some (some (.error what))) :
    ∃ h', readValueFromDevice k reset h = some (.error what, h') := by
  rw [readValueFromDevice_eq, hd]
  exact ⟨_, rfl⟩

theorem readValueFromDevice_credited {v : Nat} (hd : deviceRead k reset h = some (some (.ok v))) :
    ∃ h', readValueFromDevice k reset h = some (.ok (), h') ∧
      h'.clustSafe.instanceValueMap = credit v h.clustSafe.instanceValueMap := by
  rw [readValueFromDevice_eq, hd]
  exact ⟨_, rfl, rfl⟩

/-- A value that was read is the sum over a payload the device sent. -/
theorem payload_of_fresh {v : Nat} (hv : v ∈ fresh k reset h) :
    ∃ payload, asks k reset h = true ∧ k.sendCommand (h.clock + 1) = .ok payload ∧
      sumOutlets payload h.clustSafe.outlets 0 = some (.ok v) := by
  unfold fresh at hv
  split at hv
  · next w hd =>
    obtain rfl := List.mem_singleton.mp hv
    unfold deviceRead at hd
    split at hd
    · next hasks =>
      split at hd
      · cases hd
      · next payload hpayload =>
        obtain ⟨sum, hsum, hok⟩ := Option.map_eq_some_iff.mp hd
        cases hok
        exact ⟨payload, hasks, hpayload, hsum⟩
    · cases hd
  · cases hv

/-- Over a socket, all that is credited to the instances came in frames of the protocol. -/
theorem frame_of_fresh {socket : Nat → Socket} {password : String}
    (hk : ∀ clock, k.sendCommand clock = sendCommand (socket clock) password 0x010F [1]) {v : Nat}
    (hv : v ∈ fresh k reset h) :
    ∃ payload, (socket (h.clock + 1)).readAll = frame 0x010F payload ∧
      sumOutlets payload h.clustSafe.outlets 0 = some (.ok v) := by
  obtain ⟨payload, -, hpayload, hsum⟩ := payload_of_fresh hv
  rw [hk, sendCommand_ok_iff] at hpayload
  exact ⟨payload, hpayload.2.2.2, hsum⟩

/-- No word outside the payload is accessed, and an outlet outside makes the reading throw. -/
def StaysInside (k : Kernel D) (reset : Bool) (h : Host) (payload : List UInt8) : Prop :=
  readValueFromDevice k reset h ≠ none ∧
  ((∃ o ∈ h.clustSafe.outlets, ¬ InPayload payload o) →
    ∃ what h', readValueFromDevice k reset h = some (.error what, h'))

theorem readInt_inRange {text : String} {o : Int} (h : Tools.readInt text = .ok o) : QString.inRange o = true := by
  rw [Tools.readInt] at h
  cases hv : QString.toIntAnyBase text with
  | none => simp [hv] at h
  | some v =>
    simp only [hv, Except.ok.injEq] at h
    subst h
    exact (Option.filter_eq_some_iff.mp hv).2

theorem readInts_inRange {list : List String} {l : List Int} (h : Tools.readInts list = .ok l) :
    ∀ o ∈ l, QString.inRange o = true := by
  induction list generalizing l with
  | nil =>
    cases h
    simp
  | cons text list ih =>
    rw [Tools.readInts, List.mapM_cons] at h
    obtain ⟨v, hv, h⟩ := bind_eq_ok h
    obtain ⟨vs, hvs, h⟩ := bind_eq_ok h
    cases h
    exact List.forall_mem_cons.mpr ⟨readInt_inRange hv, ih hvs⟩

/-- The outlets set from a configuration are values of an `int`. -/
theorem initStatic_inRange (config : StandardConfiguration) :
    ∀ o ∈ (ClustSafeConnection.initStatic config {}).1.outlets, QString.inRange o = true := by
  have hdefault : ∀ o ∈ [(1 : Int)], QString.inRange o = true := by decide
  simp only [ClustSafeConnection.initStatic, ClustSafeConnection.readOption]
  split
  · exact hdefault
  · split
    · next h => exact readInts_inRange h
    · exact hdefault

/-- An outlet outside the payload throws unless the first such outlet is -1, whose word lies before the payload. -/
theorem staysInside_iff (config : StandardConfiguration) (k : Kernel D) (reset : Bool) (h : Host)
    (payload : List UInt8) (hset : h.clustSafe.outlets = (ClustSafeConnection.initStatic config {}).1.outlets)
    (hasks : asks k reset h = true) (hpayload : k.sendCommand (h.clock + 1) = .ok payload)
    (hsize : payload.length < 2 ^ 31) :
    StaysInside k reset h payload ↔ firstOutside payload h.clustSafe.outlets ≠ some (-1) := by
  have hint := initStatic_inRange config
  rw [← hset] at hint
  have hd := deviceRead_payload hasks hpayload
  cases hfirst : firstOutside payload h.clustSafe.outlets with
  | none =>
    have hin := firstOutside_eq_none.mp hfirst
    rw [sumOutlets_inside hsize hin (by decide), Option.map_some] at hd
    obtain ⟨h', hok, -⟩ := readValueFromDevice_credited hd
    constructor
    · simp
    · intro _
      constructor
      · simp [hok]
      · rintro ⟨o, ho, hout⟩
        exact absurd (hin o ho) hout
  | some o =>
    rw [sumOutlets_outside hsize hint hfirst] at hd
    by_cases hminus : o = -1
    · rw [if_pos hminus, Option.map_none] at hd
      constructor
      · intro hstays
        exact absurd (readValueFromDevice_undefined hd) hstays.1
      · simp [hminus]
    · rw [if_neg hminus, Option.map_some] at hd
      obtain ⟨h', herror⟩ := readValueFromDevice_throws hd
      constructor
      · simp [hminus]
      · intro _
        constructor
        · simp [herror]
        · intro _
          exact ⟨_, h', herror⟩

end

theorem staysInside_default :
    StaysInside Kernel.succeeding true {} [0, 0, 0, 0, 0, 0, 0, 0] :=
  (staysInside_iff {} Kernel.succeeding true {} [0, 0, 0, 0, 0, 0, 0, 0] rfl rfl rfl (by decide)).mpr (by decide)

/-- The configuration that selects outlet -1. -/
def minusOneConfig : StandardConfiguration :=
  { options := (∅ : AList (fun _ : String => List String)).insert "clust.outlets" ["-1"] }

/-- Outlet -1 is read from the configuration, and then from in front of the payload. -/
theorem minusOne_outside :
    (ClustSafeConnection.initStatic minusOneConfig {}).1.outlets = [-1] ∧
    ¬ InPayload [0, 0, 0, 0, 0, 0, 0, 0] (-1) ∧
    ¬ StaysInside Kernel.succeeding true { clustSafe := { outlets := [-1] } } [0, 0, 0, 0, 0, 0, 0, 0] := by
  refine ⟨by decide +kernel, by decide, ?_⟩
  intro hstays
  exact hstays.1 (by decide +kernel)

/-! ## The energy of the outlets -/

/-- The sum over the outlets of the unsigned words. -/
def unsignedSum (payload : List UInt8) (outlets : List Int) : Nat := (outlets.map (unsignedWord payload)).sum

/-- Every running instance gets the unsigned sum, and an energy that is the sum of fewer than 2^32 readings,
these included, does not wrap. -/
def CreditsUnsigned (k : Kernel D) (reset : Bool) (h : Host) (payload : List UInt8) : Prop :=
  ∃ h', readValueFromDevice k reset h = some (.ok (), h') ∧
    ∀ i v, h.clustSafe.instanceValueMap.lookup i = some v →
      h'.clustSafe.instanceValueMap.lookup i = some ((v + unsignedSum payload h.clustSafe.outlets) % 2 ^ 64) ∧
      ∀ words : List Nat, (∀ w ∈ words, w < 2 ^ 32) → v = words.sum →
        words.length + h.clustSafe.outlets.length < 2 ^ 32 →
        h'.clustSafe.instanceValueMap.lookup i = some (v + unsignedSum payload h.clustSafe.outlets)

theorem signedWord_eq (payload : List UInt8) :
    signedWord payload = (fun w : Nat => Int.bmod w (2 * 2 ^ 31)) ∘ unsignedWord payload := by
  have hpow : 2 ^ 32 = 2 * 2 ^ 31 := by decide
  funext o
  rw [Function.comp_apply, ← hpow]
  rfl

theorem unsignedSum_modEq_iff (payload : List UInt8) {outlets : List Int} (hlist : outlets.length < 2 ^ 31) :
    (outlets.map (signedWord payload)).sum ≡ unsignedSum payload outlets [ZMOD (2 ^ 64 : Nat)] ↔
      ∀ o ∈ outlets, unsignedWord payload o < 2 ^ 31 := by
  have hwords : ∀ w ∈ outlets.map (unsignedWord payload), w < 2 * 2 ^ 31 := by
    rw [List.forall_mem_map]
    exact fun o _ => unsignedWord_lt payload o
  have hregister : 2 * 2 ^ 31 * (outlets.map (unsignedWord payload)).length < 2 ^ 64 := by
    rw [List.length_map]
    omega
  have hiff := SignedWords.sum_bmod_modEq_iff hwords hregister
  rwa [List.map_map, ← signedWord_eq, List.forall_mem_map] at hiff

theorem sum_le_length_mul {words : List Nat} {bound : Nat} (h : ∀ w ∈ words, w ≤ bound) :
    words.sum ≤ words.length * bound := by
  have hle := List.sum_le_card_nsmul words bound h
  rwa [nsmul_eq_mul, Nat.cast_id] at hle

theorem sum_le_of_words {words : List Nat} (h : ∀ w ∈ words, w < 2 ^ 32) : words.sum ≤ words.length * (2 ^ 32 - 1) :=
  sum_le_length_mul fun w hw => Nat.le_sub_one_of_lt (h w hw)

theorem unsignedSum_le (payload : List UInt8) (outlets : List Int) :
    unsignedSum payload outlets ≤ outlets.length * (2 ^ 32 - 1) := by
  have hwords : ∀ w ∈ outlets.map (unsignedWord payload), w < 2 ^ 32 := by
    rw [List.forall_mem_map]
    exact fun o _ => unsignedWord_lt payload o
  have hle := sum_le_of_words hwords
  rwa [List.length_map] at hle

section

variable {k : Kernel D} {reset : Bool} {h : Host} {payload : List UInt8}

/-- A running instance gets the unsigned sum exactly if every word that is read is below 2^31. -/
theorem creditsUnsigned_iff (hasks : asks k reset h = true) (hpayload : k.sendCommand (h.clock + 1) = .ok payload)
    (hsize : payload.length < 2 ^ 31) (hlist : h.clustSafe.outlets.length < 2 ^ 31)
    (hin : ∀ o ∈ h.clustSafe.outlets, InPayload payload o) (hrunning : ∃ i, i ∈ h.clustSafe.instanceValueMap) :
    CreditsUnsigned k reset h payload ↔ ∀ o ∈ h.clustSafe.outlets, unsignedWord payload o < 2 ^ 31 := by
  have hd := deviceRead_payload hasks hpayload
  rw [sumOutlets_inside hsize hin (by decide), Option.map_some] at hd
  obtain ⟨h', hread, hmap⟩ := readValueFromDevice_credited hd
  rw [← unsignedSum_modEq_iff payload hlist]
  -- what is added is the signed sum in 64 bits
  have hlookup : ∀ i v, h.clustSafe.instanceValueMap.lookup i = some v →
      h'.clustSafe.instanceValueMap.lookup i = some ((v +
        (((0 : Nat) + (h.clustSafe.outlets.map (signedWord payload)).sum) % 2 ^ 64).toNat) % 2 ^ 64) := by
    intro i v hv
    rw [hmap, lookup_credit, hv, Option.map_some]
  have hmod : ∀ v : Nat,
      (v + (((0 : Nat) + (h.clustSafe.outlets.map (signedWord payload)).sum) % 2 ^ 64).toNat) % 2 ^ 64 =
      (v + unsignedSum payload h.clustSafe.outlets) % 2 ^ 64 ↔
      (h.clustSafe.outlets.map (signedWord payload)).sum ≡ unsignedSum payload h.clustSafe.outlets
        [ZMOD (2 ^ 64 : Nat)] := by
    intro v
    unfold Int.ModEq
    omega
  constructor
  · rintro ⟨h'', hread', hcredit⟩
    obtain ⟨i, hi⟩ := hrunning
    obtain ⟨v, hv⟩ := Option.isSome_iff_exists.mp (AList.lookup_isSome.mpr hi)
    obtain rfl : h' = h'' := by simpa [hread] using hread'
    have heq := (hlookup i v hv).symm.trans (hcredit i v hv).1
    exact (hmod v).mp (Option.some.inj heq)
  · intro hsmall
    refine ⟨h', hread, ?_⟩
    intro i v hv
    have hsum := hlookup i v hv
    rw [(hmod v).mpr hsmall] at hsum
    refine ⟨hsum, ?_⟩
    intro words hwords hv' hcount
    have hle := sum_le_of_words hwords
    have hle' := unsignedSum_le payload h.clustSafe.outlets
    rw [hsum, Nat.mod_eq_of_lt (by omega)]

end

/-! ## The energy of a whole run -/

section

variable {k : Kernel D} {payload : List UInt8} {outlets : List Int}

theorem sumOutlets_le (hsmall : ∀ o ∈ outlets, InPayload payload o → unsignedWord payload o < 2 ^ 31) {value v : Nat}
    (h : sumOutlets payload outlets value = some (.ok v)) : v ≤ value + outlets.length * 2 ^ 31 := by
  induction outlets generalizing value with
  | nil =>
    cases h
    omega
  | cons outlet outlets ih =>
    rw [List.forall_mem_cons] at hsmall
    rw [sumOutlets] at h
    split at h
    · rw [word_eq] at h
      by_cases hin : InPayload payload outlet
      · rw [if_pos hin, Option.bind_some] at h
        have hrest := ih hsmall.2 h
        have hlower := SignedWords.bmod_lower (hsmall.1 hin)
        have hword := congrFun (signedWord_eq payload) outlet
        rw [Function.comp_apply, hlower] at hword
        have hw := hsmall.1 hin
        rw [hword] at hrest
        rw [List.length_cons]
        omega
      · rw [if_neg hin] at h
        cases h
    · cases h

/-- The words a call reads, if it asks the device and gets a payload, are below 2^31. -/
def SmallWords (k : Kernel D) (s : Ledger) (call : StaticCall) : Prop :=
  ∀ payload, asks k call.reset s.host = true → k.sendCommand (s.host.clock + 1) = .ok payload →
    ∀ o ∈ s.host.clustSafe.outlets, InPayload payload o → unsignedWord payload o < 2 ^ 31

theorem fresh_le {s : Ledger} {call : StaticCall} (hsmall : SmallWords k s call) {v : Nat}
    (hv : v ∈ fresh k call.reset s.host) : v ≤ s.host.clustSafe.outlets.length * 2 ^ 31 := by
  obtain ⟨payload, hasks, hpayload, hsum⟩ := payload_of_fresh hv
  simpa using sumOutlets_le (hsmall payload hasks hpayload) hsum

theorem readValueFromDevice_outlets {reset : Bool} {h h' : Host} {r : Except String Unit}
    (hr : readValueFromDevice k reset h = some (r, h')) : h'.clustSafe.outlets = h.clustSafe.outlets := by
  rw [readValueFromDevice_eq] at hr
  obtain ⟨answer, -, hr⟩ := Option.map_eq_some_iff.mp hr
  match answer with
  | none =>
    cases hr
    rfl
  | some (.error what) =>
    cases hr
    rfl
  | some (.ok v) =>
    cases hr
    rfl

theorem touch_outlets (i : Nat) (h : Host) : (touch i h).2.clustSafe.outlets = h.clustSafe.outlets := by
  unfold touch
  split <;> rfl

theorem mem_readings {i : Nat} {log : List (LedgerEntry Nat)} {vs : List Nat} (h : readings i log = some vs) {v : Nat}
    (hv : v ∈ vs) : .read v ∈ log := by
  induction log using List.reverseRecOn generalizing vs with
  | nil => cases h
  | append_singleton log e ih =>
    cases e with
    | read w =>
      rw [readings_read] at h
      obtain ⟨us, hus, rfl⟩ := Option.map_eq_some_iff.mp h
      rw [List.mem_append, List.mem_singleton] at hv ⊢
      exact hv.imp (ih hus) (fun hw => by rw [hw])
    | started j =>
      rw [readings_started] at h
      split at h
      · cases h
        cases hv
      · exact List.mem_append_left _ (ih h hv)
    | stopped j =>
      rw [readings_stopped] at h
      split at h
      · cases h
      · exact List.mem_append_left _ (ih h hv)

theorem finish_outlets (call : StaticCall) (h : Host) (log : List (LedgerEntry Nat)) :
    (call.finish h log).host.clustSafe.outlets = h.clustSafe.outlets := by
  cases call with
  | start i => rfl
  | value i | stop i => exact touch_outlets i h

theorem read_of_mem_finish {call : StaticCall} {h : Host} {log : List (LedgerEntry Nat)} {v : Nat}
    (hv : .read v ∈ (call.finish h log).log) : .read v ∈ log := by
  cases call with
  | start i | stop i => simpa [StaticCall.finish] using hv
  | value i => exact hv

/-- A call leaves the outlets alone and logs what it read. -/
theorem step_reads {s t : Ledger} {call : StaticCall} (h : s.step k call = some t) :
    t.host.clustSafe.outlets = s.host.clustSafe.outlets ∧
    ∀ v, LedgerEntry.read v ∈ t.log → LedgerEntry.read v ∈ s.log ∨ v ∈ fresh k call.reset s.host := by
  have hlogged : ∀ v, LedgerEntry.read v ∈ s.log ++ entries k call.reset s.host →
      LedgerEntry.read v ∈ s.log ∨ v ∈ fresh k call.reset s.host := by
    intro v hv
    simpa [entries] using hv
  obtain ⟨r, h', hread, hfail, hdone⟩ := step_read h
  have hout := readValueFromDevice_outlets hread
  cases r with
  | error what =>
    rw [hfail what rfl]
    exact ⟨hout, hlogged⟩
  | ok _ =>
    rw [hdone rfl, finish_outlets]
    exact ⟨hout, fun v hv => hlogged v (read_of_mem_finish hv)⟩

/-- What holds in a run whose words are small: the ledger is balanced, and no reading is large. -/
structure Unwrapped (outlets : List Int) (s : Ledger) : Prop where
  sameOutlets : s.host.clustSafe.outlets = outlets
  balanced : Balanced s.host.clustSafe.instanceValueMap s.log
  small : ∀ v, LedgerEntry.read v ∈ s.log → v ≤ outlets.length * 2 ^ 31

theorem step_unwrapped {s t : Ledger} {call : StaticCall} (hs : Unwrapped outlets s) (hsmall : SmallWords k s call)
    (h : s.step k call = some t) : Unwrapped outlets t := by
  obtain ⟨hout, hreads⟩ := step_reads h
  refine ⟨hout.trans hs.sameOutlets, step_balanced hs.balanced h, ?_⟩
  intro v hv
  rcases hreads v hv with hold | hnew
  · exact hs.small v hold
  · rw [← hs.sameOutlets]
    exact fresh_le hsmall hnew

/-- The energy of an instance that was started is the sum of its readings, without wrapping. -/
theorem Unwrapped.energy {s : Ledger} (hs : Unwrapped outlets s) {i : Nat} {vs : List Nat}
    (hvs : readings i s.log = some vs) (hcount : vs.length * outlets.length < 2 ^ 32) :
    s.host.clustSafe.instanceValueMap.lookup i = some vs.sum := by
  have hle : vs.sum ≤ vs.length * (outlets.length * 2 ^ 31) :=
    sum_le_length_mul fun v hv => hs.small v (mem_readings hvs hv)
  have hlt : vs.length * (outlets.length * 2 ^ 31) < 2 ^ 64 := by
    rw [← Nat.mul_assoc]
    omega
  rw [hs.balanced i vs hvs, Nat.mod_eq_of_lt (lt_of_le_of_lt hle hlt)]

end

/-- A reading of outlets inside the payload credits every running instance with the sum of the unsigned words
exactly if all of them are below 2^31. In every run in which all words read are, the energy of a started instance
is the sum of its readings and does not wrap for fewer than 2^32 words. -/
theorem energy_unsigned (k : Kernel D) :
    (∀ reset h payload, asks k reset h = true → k.sendCommand (h.clock + 1) = .ok payload →
      payload.length < 2 ^ 31 → h.clustSafe.outlets.length < 2 ^ 31 →
      (∀ o ∈ h.clustSafe.outlets, InPayload payload o) → (∃ i, i ∈ h.clustSafe.instanceValueMap) →
        (CreditsUnsigned k reset h payload ↔ ∀ o ∈ h.clustSafe.outlets, unsignedWord payload o < 2 ^ 31)) ∧
    (∀ h calls s, PartialStep.Admitted (Ledger.step k) (SmallWords k) ⟨h, []⟩ calls →
      PartialStep.run (Ledger.step k) ⟨h, []⟩ calls = some s →
        ∀ i vs, readings i s.log = some vs → vs.length * h.clustSafe.outlets.length < 2 ^ 32 →
          s.host.clustSafe.instanceValueMap.lookup i = some vs.sum) := by
  constructor
  · intro reset h payload hasks hpayload hsize hlist hin hrunning
    exact creditsUnsigned_iff hasks hpayload hsize hlist hin hrunning
  · intro h calls s hok hrun i vs hvs hcount
    have hinit : Unwrapped h.clustSafe.outlets ⟨h, []⟩ :=
      ⟨rfl, (fun i vs hvs => by cases hvs), (fun v hv => by cases hv)⟩
    have hs := PartialStep.run_invariant (Unwrapped h.clustSafe.outlets)
      (fun s call t hs hsmall hstep => step_unwrapped hs hsmall hstep) hinit hok hrun
    exact hs.energy hvs hcount

/-- The device that reads 3 at outlet 0 and the given word at outlet 1. -/
def threes (word : List UInt8) : Kernel Int :=
  { Kernel.succeeding with elapsed := fun _ => 20, sendCommand := fun _ => .ok ([0, 0, 0, 3] ++ word) }

/-- A host where one instance runs. -/
def oneRunning (outlets : List Int) : Host :=
  { clustSafe := { instanceValueMap := (∅ : AList (fun _ : Nat => Nat)).insert 0 5, outlets := outlets } }

theorem threes_unsigned : CreditsUnsigned (threes [0, 0, 0, 4]) false (oneRunning [0, 1]) [0, 0, 0, 3, 0, 0, 0, 4] :=
  ((energy_unsigned (threes [0, 0, 0, 4])).1 false (oneRunning [0, 1]) [0, 0, 0, 3, 0, 0, 0, 4] (by decide +kernel)
    rfl (by decide) (by decide) (by decide) ⟨0, AList.mem_insert .. |>.mpr (.inl rfl)⟩).mpr (by decide)

/-- A word of 2^31 takes as much from the energy of 5, which wraps below 0. -/
theorem upper_half_wraps :
    (readValueFromDevice (threes [128, 0, 0, 0]) false (oneRunning [1])).map
      (fun r => r.2.clustSafe.instanceValueMap.lookup 0) = some (some (2 ^ 64 - 2 ^ 31 + 5)) ∧
    unsignedSum [0, 0, 0, 3, 128, 0, 0, 0] [1] = 2 ^ 31 ∧
    ¬ CreditsUnsigned (threes [128, 0, 0, 0]) false (oneRunning [1]) [0, 0, 0, 3, 128, 0, 0, 0] := by
  refine ⟨by decide +kernel, by decide, ?_⟩
  have hrunning : ∃ i, i ∈ (oneRunning [1]).clustSafe.instanceValueMap :=
    ⟨0, (AList.mem_insert ..).mpr (.inl rfl)⟩
  rw [creditsUnsigned_iff (by decide +kernel) rfl (by decide) (by decide) (by decide) hrunning]
  decide

end ClustSafe

end AutopinPlus
