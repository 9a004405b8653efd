import JtagRemote.Mpsse.Runs

/-!
# The operands of the commands

What the chip documents for the lengths in its commands, and which calls keep to it.
-/

namespace JtagRemote.Mpsse

/-! ## What is documented -/

/-- A TMS command clocks 7 bits at most, as bit 7 of its byte is the level of TDI; other commands that count
bits count 8 at most. -/
def Documented : List Byte → Prop
  | op :: l :: _ =>
    (op = 0x4B ∨ op = 0x6B → l.toNat ≤ 6) ∧ (op = 0x1B ∨ op = 0x3B ∨ op = 0x8E → l.toNat ≤ 7)
  | _ => True

/-- What a command with a length of 16 bits counts. -/
def wideCount : List Byte → Option Nat
  | op :: lo :: hi :: _ =>
    if op = 0x19 ∨ op = 0x39 ∨ op = 0x8F then some (256 * hi.toNat + lo.toNat + 1) else none
  | _ => none

/-- A count that needs no command when it is zero. -/
def countOf (len : Nat) : List Nat := if len = 0 then [] else [len]

/-- The bytes that a call is to shift or to clock as a whole. -/
def Call.counts : Call → List Nat
  | .scan_chain_send _ num_bits flip_tms _ => countOf ((if flip_tms then num_bits - 1 else num_bits) / 8)
  | .clock_tck times => countOf (times / 8)
  | _ => []

/-- `new` is whole commands with documented operands, and these count what the calls are to count. -/
def Legal (calls : List Call) (new : List Byte) : Prop :=
  ∃ us : List (List Byte), us.flatten = new ∧
    (∀ u ∈ us, (∃ cmd, IsCommand mpsseParse u cmd) ∧ Documented u) ∧
    us.filterMap wideCount = calls.flatMap Call.counts

/-! ## What a call sends -/

def Call.codes : Call → List Coded
  | .tms_seq data num_bits => tmsCodes data num_bits
  | .scan_chain_send data num_bits flip_tms do_read => scanCodes data num_bits flip_tms do_read
  | .clock_tck times => clockCodes times
  | .set_tck_freq freq_mhz => freqCodes freq_mhz

def Call.units (call : Call) : List (List Byte) := call.codes.map Prod.fst

theorem Call.units_flatten (call : Call) : call.units.flatten = encode call.codes := by
  rw [Call.units, encode, List.flatMap_def]

/-- The operands hold the lengths: a TMS sequence is one command of 7 bits at most. -/
def Call.Fits : Call → Prop
  | .tms_seq _ num_bits => num_bits ≤ 7
  | .clock_tck times => times / 8 ≤ 65536
  | _ => True

variable {usb : Usb}

/-! ## Which operands are sent -/

/-- A count whose length minus one is cut to 16 bits. -/
def cutCount (len : Nat) : List Nat := if len = 0 then [] else [(len - 1) % 65536 + 1]

theorem cutCount_length (len : Nat) : (cutCount len).length = (countOf len).length := by
  unfold cutCount countOf
  split <;> rfl

theorem cutCount_iff (len : Nat) : cutCount len = countOf len ↔ len ≤ 65536 := by
  unfold cutCount countOf
  split
  · simp only [true_iff]
    omega
  · simp only [List.cons.injEq, and_true]
    omega

/-- What the call's commands count. -/
def Call.sentCounts : Call → List Nat
  | .clock_tck times => cutCount (times / 8)
  | call => call.counts

theorem tms_units_documented (data : List Byte) (n : Nat) :
    (∀ u ∈ (Call.tms_seq data n).units, Documented u) ↔ n ≤ 7 := by
  have hunit : ∀ i, Documented (tmsCode data n i).1 ↔ (min 8 (n - i * 8) - 1) ≤ 6 := by
    intro i
    have hlen : (BitVec.ofNat 8 (min 8 (n - i * 8) - 1) : Byte).toNat = min 8 (n - i * 8) - 1 := by
      rw [BitVec.toNat_ofNat, Nat.mod_eq_of_lt (by omega)]
    simp [Documented, tmsCode, tmsOp, hlen]
  simp only [Call.units, Call.codes, tmsCodes, List.mem_map, List.mem_range]
  constructor
  · intro h
    by_contra hn
    have hfirst := (hunit 0).mp (h _ ⟨_, ⟨0, by omega, rfl⟩, rfl⟩)
    omega
  · rintro hn _ ⟨_, ⟨i, hi, rfl⟩, rfl⟩
    exact (hunit i).mpr (by omega)

/-- A few bits are 7 at most. -/
theorem few_documented {op : Byte} {k : Nat} (rest : List Byte) (hk : k < 8)
    (hop : ¬ (op = 0x4B ∨ op = 0x6B)) : Documented (op :: BitVec.ofNat 8 (k - 1) :: rest) := by
  have hlen : (BitVec.ofNat 8 (k - 1) : Byte).toNat = k - 1 := by
    rw [BitVec.toNat_ofNat, Nat.mod_eq_of_lt (by omega)]
  refine ⟨fun h => absurd h hop, fun _ => ?_⟩
  rw [hlen]
  omega

theorem scan_units_documented (data : List Byte) (n : Nat) (flip read : Bool) :
    ∀ u ∈ (Call.scan_chain_send data n flip read).units, Documented u := by
  have hbytes : ∀ len, ∀ u ∈ (bytesCodes data len read).map Prod.fst, Documented u := by
    intro len
    unfold bytesCodes
    split
    · simp
    · cases read <;> simp [Documented, bytesOp]
  have hrest : ∀ bulk, ∀ u ∈ (restCodes data bulk read).map Prod.fst, Documented u := by
    intro bulk
    unfold restCodes
    split
    · simp
    · intro u hu
      obtain rfl := List.mem_singleton.mp hu
      exact few_documented _ (Nat.mod_lt _ (by omega)) (by cases read <;> decide)
  simp only [Call.units, Call.codes, scanCodes, List.map_append, List.forall_mem_append]
  refine ⟨⟨hbytes _, hrest _⟩, ?_⟩
  cases flip with
  | false => simp
  | true => cases read <;> simp [lastCode, Documented, tmsOp]

theorem clock_units_documented (times : Nat) : ∀ u ∈ (Call.clock_tck times).units, Documented u := by
  simp only [Call.units, Call.codes, clockCodes, clockBytesCodes, clockRestCodes, List.map_append,
    List.forall_mem_append]
  refine ⟨?_, ?_⟩
  · split
    · simp
    · simp [Documented]
  · split
    · simp
    · intro u hu
      obtain rfl := List.mem_singleton.mp hu
      exact few_documented [] (Nat.mod_lt _ (by omega)) (by decide)

theorem tms_units_counts (data : List Byte) (n : Nat) : (Call.tms_seq data n).units.filterMap wideCount = [] := by
  refine List.filterMap_eq_nil_iff.mpr ?_
  simp [Call.units, Call.codes, tmsCodes, tmsCode, wideCount, tmsOp]

theorem scan_units_counts (data : List Byte) {n : Nat} {flip : Bool} (read : Bool)
    (hlen : (if flip then n - 1 else n) / 8 ≤ 65536) :
    (Call.scan_chain_send data n flip read).units.filterMap wideCount =
      (Call.scan_chain_send data n flip read).counts := by
  have hbytes : ∀ len, len ≤ 65536 →
      ((bytesCodes data len read).map Prod.fst).filterMap wideCount = countOf len := by
    intro len hle
    unfold bytesCodes countOf
    split
    · rfl
    · have hcount := length_operand (k := len) (by omega) hle
      cases read
      all_goals
        simp only [List.map_cons, List.map_nil, List.filterMap_cons, wideCount, bytesOp, hcount]
        rfl
  have hrest : ∀ bulk, ((restCodes data bulk read).map Prod.fst).filterMap wideCount = [] := by
    intro bulk
    unfold restCodes
    split
    · rfl
    · cases read <;> rfl
  simp only [Call.units, Call.codes, scanCodes, List.map_append, List.filterMap_append, hbytes _ hlen, hrest]
  cases flip with
  | false => simp [Call.counts]
  | true => cases read <;> simp [Call.counts, lastCode, wideCount, tmsOp]

theorem clock_units_counts (times : Nat) :
    (Call.clock_tck times).units.filterMap wideCount = (Call.clock_tck times).sentCounts := by
  have hrest : ((clockRestCodes times).map Prod.fst).filterMap wideCount = [] := by
    unfold clockRestCodes
    split <;> rfl
  simp only [Call.units, Call.codes, clockCodes, List.map_append, List.filterMap_append, hrest, List.append_nil]
  show _ = cutCount (times / 8)
  unfold clockBytesCodes cutCount
  by_cases hzero : times / 8 = 0
  · rw [if_pos hzero, if_pos hzero]
    rfl
  · have hcut : 256 * (BitVec.ofNat 8 ((times / 8 - 1) / 256) : Byte).toNat +
        (BitVec.ofNat 8 ((times / 8 - 1) % 256) : Byte).toNat + 1 = (times / 8 - 1) % 65536 + 1 := by
      rw [BitVec.toNat_ofNat, BitVec.toNat_ofNat]
      omega
    rw [if_neg hzero, if_neg hzero, ← hcut]
    rfl

/-! ## What succeeds -/

/-- What a call that succeeds sends: its commands, which count what they can hold. -/
structure Call.Sent (call : Call) (c d : Jtag Mpsse) : Prop where
  emits : Emits c d call.units.flatten
  commands : ∀ u ∈ call.units, ∃ cmd, IsCommand mpsseParse u cmd
  counts : call.units.filterMap wideCount = call.sentCounts

theorem Call.sent {call : Call} {c d : Jtag Mpsse} (hsized : call.Sized) (h : call.run usb c = .ok true d) :
    call.Sent c d := by
  have hwhole : (∀ w ∈ call.codes, Whole w) → ∀ u ∈ call.units, ∃ cmd, IsCommand mpsseParse u cmd := by
    intro hw u hu
    obtain ⟨w, hmem, rfl⟩ := List.mem_map.mp hu
    exact ⟨w.2, hw w hmem⟩
  have hemits : Emits c d (encode call.codes) → Emits c d call.units.flatten := by
    rw [call.units_flatten]
    exact id
  cases call with
  | tms_seq data n =>
    obtain ⟨-, hsent⟩ := tms_seq_spec data n c _ _ h rfl
    exact ⟨hemits hsent, hwhole (tmsCodes_whole data n), tms_units_counts data n⟩
  | scan_chain_send data n flip read =>
    rcases Nat.eq_zero_or_pos n with rfl | hn
    · obtain ⟨rfl, rfl⟩ := empty_scan h
      exact ⟨hemits (Emits.refl _), by simp [Call.units, Call.codes, scanCodes, bytesCodes, restCodes], rfl⟩
    · obtain ⟨hsent, hlen⟩ := scan_chain_send_spec data n flip read c hn hsized _ _ h
      obtain ⟨hlen, hroom⟩ := hlen rfl
      unfold BUFFER_LENGTH at hroom
      exact ⟨hemits (hsent rfl).2, hwhole (scanCodes_whole data n flip read hlen (by omega)),
        scan_units_counts data read (by omega)⟩
  | clock_tck times =>
    obtain ⟨-, hsent⟩ := (clock_tck_spec times c).ensures _ _ h rfl
    exact ⟨hemits hsent, hwhole (clockCodes_whole times), clock_units_counts times⟩
  | set_tck_freq freq =>
    obtain ⟨-, hsent⟩ := set_tck_freq_spec freq c _ _ h rfl
    exact ⟨hemits hsent, hwhole (freqCodes_whole freq), rfl⟩

theorem run_sent {calls : List Call} {c c' : Jtag Mpsse} (hrun : Ran usb c (calls.map .call) [] c')
    (hsized : ∀ call ∈ calls, call.Sized) :
    stream c' = stream c ++ (calls.flatMap Call.units).flatten ∧
      (∀ u ∈ calls.flatMap Call.units, ∃ cmd, IsCommand mpsseParse u cmd) ∧
      (calls.flatMap Call.units).filterMap wideCount = calls.flatMap Call.sentCounts := by
  induction calls generalizing c with
  | nil =>
    cases hrun
    simp
  | cons call calls ih =>
    obtain _ | ⟨hcall, hrest⟩ := hrun
    have hsent := Call.sent (hsized call List.mem_cons_self) hcall
    obtain ⟨hstream, hcmds, hcounts⟩ := ih hrest fun call' hmem => hsized call' (List.mem_cons_of_mem _ hmem)
    simp only [List.flatMap_cons]
    refine ⟨?_, List.forall_mem_append.mpr ⟨hsent.commands, hcmds⟩, ?_⟩
    · rw [hstream, hsent.emits.stream, List.flatten_append, List.append_assoc]
    · rw [List.filterMap_append, hsent.counts, hcounts]

/-! ## A run -/

theorem Call.fits_iff (call : Call) :
    ((∀ u ∈ call.units, Documented u) ∧ call.sentCounts = call.counts) ↔ call.Fits := by
  cases call with
  | tms_seq data n =>
    rw [tms_units_documented]
    exact and_iff_left rfl
  | scan_chain_send data n flip read =>
    exact iff_of_true ⟨scan_units_documented data n flip read, rfl⟩ trivial
  | clock_tck times =>
    rw [and_iff_right (clock_units_documented times)]
    exact cutCount_iff (times / 8)
  | set_tck_freq freq =>
    refine iff_of_true ⟨?_, rfl⟩ trivial
    simp [Call.units, Call.codes, freqCodes, Documented]

theorem sentCounts_length (call : Call) : call.sentCounts.length = call.counts.length := by
  cases call with
  | clock_tck times => exact cutCount_length (times / 8)
  | _ => rfl

theorem counts_iff (calls : List Call) : calls.flatMap Call.sentCounts = calls.flatMap Call.counts ↔
    ∀ call ∈ calls, call.sentCounts = call.counts := by
  induction calls with
  | nil => simp
  | cons call calls ih =>
    rw [List.flatMap_cons, List.flatMap_cons, List.forall_mem_cons, ← ih]
    constructor
    · intro h
      exact List.append_inj h (sentCounts_length call)
    · rintro ⟨hcall, hrest⟩
      rw [hcall, hrest]

/-- What the calls of a run send is legal just if each of them fits its commands. -/
theorem run_legal_iff {calls : List Call} {c c' : Jtag Mpsse} (hrun : Ran usb c (calls.map .call) [] c')
    (hsized : ∀ call ∈ calls, call.Sized) :
    (∃ new, stream c' = stream c ++ new ∧ Legal calls new) ↔ ∀ call ∈ calls, call.Fits := by
  obtain ⟨hstream, hcmds, hcounts⟩ := run_sent hrun hsized
  have hfits : ((∀ u ∈ calls.flatMap Call.units, Documented u) ∧
      calls.flatMap Call.sentCounts = calls.flatMap Call.counts) ↔ ∀ call ∈ calls, call.Fits := by
    rw [counts_iff, List.forall_mem_flatMap, ← forall₂_and]
    exact forall₂_congr fun call _ => call.fits_iff
  rw [← hfits]
  constructor
  · rintro ⟨new, hnew, us, rfl, hus, hwide⟩
    rw [hstream] at hnew
    have hflat := List.append_cancel_left hnew
    obtain rfl := commands_unique hcmds (fun u hu => (hus u hu).1) hflat
    exact ⟨fun u hu => (hus u hu).2, hcounts.symm.trans hwide⟩
  · rintro ⟨hdocs, hwide⟩
    exact ⟨_, hstream, _, rfl, fun u hu => ⟨hcmds u hu, hdocs u hu⟩, hcounts.trans hwide⟩

theorem run_legal_iff_byte : ∃ c', ((∃ new, stream c' = stream idleMpsse ++ new ∧ Legal byteCalls new) ↔
    ∀ call ∈ byteCalls, call.Fits) := by
  have hrun : ∃ c', Ran (mpsseUsb blinkBoard idleEngine) idleMpsse (byteCalls.map .call) [] c' :=
    ⟨_, .call rfl (.call rfl (.done _))⟩
  obtain ⟨c', hrun⟩ := hrun
  exact ⟨c', run_legal_iff hrun (by simp [byteCalls, Call.Sized])⟩

/-- A whole byte of TMS bits. -/
def tmsByte : List Call := [.tms_seq [0x81] 8]

/-- Its command has length byte 7: the last TMS bit is the level of TDI. -/
theorem tms_byte_illegal : ∃ c', Ran (mpsseUsb blinkBoard idleEngine) idleMpsse (tmsByte.map .call) [] c' ∧
    ¬ ∃ new, stream c' = stream idleMpsse ++ new ∧ Legal tmsByte new := by
  have hrun : ∃ c', mpsse_jtag_tms_seq (mpsseUsb blinkBoard idleEngine) [0x81] 8 idleMpsse = .ok true c' ∧
      stream c' = stream idleMpsse ++ [0x4B, 0x07, 0x81] := ⟨_, rfl, rfl⟩
  obtain ⟨c', hcall, hstream⟩ := hrun
  refine ⟨c', .call hcall (.done c'), ?_⟩
  rintro ⟨new, hnew, us, rfl, hus, -⟩
  rw [hstream] at hnew
  have hflat : [[0x4B, 0x07, 0x81]].flatten = us.flatten := List.append_cancel_left hnew
  have hunit : ∀ u ∈ [[0x4B, 0x07, 0x81]], ∃ cmd, IsCommand mpsseParse u cmd := by
    simpa using ⟨_, tms_whole false 8 0x81 (by omega) (by omega)⟩
  obtain rfl := commands_unique hunit (fun u hu => (hus u hu).1) hflat
  have hdoc := (hus _ List.mem_cons_self).2.1 (Or.inl rfl)
  exact absurd hdoc (by decide)

end JtagRemote.Mpsse
