import JtagRemote.Hardware.MpsseEngine
import JtagRemote.Code.Mpsse
import JtagRemote.Arrays

/-!
# What each call of the mpsse driver encodes to

A `Coded` is a command with its bytes. The second half runs the commands of a
call on the engine: the cycles they clock, and the bytes they answer with.
-/

namespace JtagRemote.Mpsse

abbrev Coded := List Byte × MpsseCommand

def encode (ws : List Coded) : List Byte := ws.flatMap Prod.fst

def tmsOp (read : Bool) : Byte := if read then 0x6B else 0x4B
def bytesOp (read : Bool) : Byte := if read then 0x39 else 0x19
def bitsOp (read : Bool) : Byte := if read then 0x3B else 0x1B

/-- One byte of a TMS sequence. -/
def tmsCode (data : List Byte) (n i : Nat) : Coded :=
  ([tmsOp false, BitVec.ofNat 8 (min 8 (n - i * 8) - 1), data.getD i 0],
    .tms false (min 8 (n - i * 8)) (data.getD i 0))

def tmsCodes (data : List Byte) (n : Nat) : List Coded :=
  (List.range ((n + 7) / 8)).map (tmsCode data n)

def bytesCodes (data : List Byte) (len : Nat) (read : Bool) : List Coded :=
  if len = 0 then []
  else [(bytesOp read :: BitVec.ofNat 8 ((len - 1) % 256) :: BitVec.ofNat 8 ((len - 1) / 256) ::
    data.take len, .bytes read (data.take len))]

def restCodes (data : List Byte) (bulk : Nat) (read : Bool) : List Coded :=
  if bulk % 8 = 0 then []
  else [([bitsOp read, BitVec.ofNat 8 (bulk % 8 - 1), data.getD (bulk / 8) 0],
    .bits read (bulk % 8) (data.getD (bulk / 8) 0))]

/-- The last bit on TDI, with TMS=1. -/
def lastByte (bit : Bool) : Byte := 0x01 ||| (BitVec.ofBool bit).setWidth 8 <<< 7

def lastCode (data : List Byte) (n : Nat) (read : Bool) : Coded :=
  ([tmsOp read, 0x00, lastByte (bitAt data (n - 1))], .tms read 1 (lastByte (bitAt data (n - 1))))

def scanCodes (data : List Byte) (n : Nat) (flip read : Bool) : List Coded :=
  let bulk := if flip then n - 1 else n
  bytesCodes data (bulk / 8) read ++ restCodes data bulk read ++
    if flip then [lastCode data n read] else []

/-- The length minus one is cut to 16 bits. -/
def clockBytesCodes (len : Nat) : List Coded :=
  if len = 0 then []
  else [([0x8F, BitVec.ofNat 8 ((len - 1) % 256), BitVec.ofNat 8 ((len - 1) / 256)],
    .clock (8 * ((len - 1) % 65536 + 1)))]

def clockRestCodes (n : Nat) : List Coded :=
  if n % 8 = 0 then [] else [([0x8E, BitVec.ofNat 8 (n % 8 - 1)], .clock (n % 8))]

def clockCodes (n : Nat) : List Coded := clockBytesCodes (n / 8) ++ clockRestCodes n

/-- The cycles that these commands clock. -/
def clocked (n : Nat) : Nat := (if n / 8 = 0 then 0 else 8 * ((n / 8 - 1) % 65536 + 1)) + n % 8

theorem clocked_eq {n : Nat} (h : n / 8 ≤ 65536) : clocked n = n := by
  unfold clocked
  split <;> omega

def freqCodes (freq : Nat) : List Coded :=
  [([0x86, (mpsse_divisor freq).setWidth 8, 0x00], .other), ([0x8A], .other)]

/-! ## Whole commands -/

def Whole (w : Coded) : Prop := IsCommand mpsseParse w.1 w.2

theorem whole_one {a : Byte} {c : MpsseCommand} (h : mpsseParse [a] = some c) : Whole ([a], c) := by
  refine ⟨by simp, h, ?_⟩
  intro u v huv hu hv
  have := congrArg List.length huv
  simp only [List.length_append, List.length_singleton] at this
  have := List.length_pos_of_ne_nil hu
  have := List.length_pos_of_ne_nil hv
  omega

theorem whole_two {a b : Byte} {c : MpsseCommand} (h1 : mpsseParse [a] = none)
    (h : mpsseParse [a, b] = some c) : Whole ([a, b], c) := by
  refine ⟨by simp, h, ?_⟩
  intro u v huv hu hv
  match u, hu with
  | [x], _ =>
    obtain ⟨rfl, -⟩ := List.cons.inj huv
    exact h1
  | x :: y :: u, _ =>
    have := congrArg List.length huv
    simp only [List.length_append, List.length_cons, List.length_nil] at this
    have := List.length_pos_of_ne_nil hv
    omega

theorem whole_three {a b d : Byte} {c : MpsseCommand} (h1 : mpsseParse [a] = none)
    (h2 : mpsseParse [a, b] = none) (h : mpsseParse [a, b, d] = some c) : Whole ([a, b, d], c) := by
  refine ⟨by simp, h, ?_⟩
  intro u v huv hu hv
  match u, hu with
  | [x], _ =>
    obtain ⟨rfl, -⟩ := List.cons.inj huv
    exact h1
  | [x, y], _ =>
    simp only [List.cons_append, List.cons.injEq] at huv
    obtain ⟨rfl, rfl, -⟩ := huv
    exact h2
  | x :: y :: z :: u, _ =>
    have := congrArg List.length huv
    simp only [List.length_append, List.length_cons, List.length_nil] at this
    have := List.length_pos_of_ne_nil hv
    omega

theorem tms_whole (read : Bool) (k : Nat) (d : Byte) (h : 1 ≤ k) (hk : k ≤ 256) :
    Whole ([tmsOp read, BitVec.ofNat 8 (k - 1), d], .tms read k d) := by
  have hk' : (k - 1) % 256 + 1 = k := by omega
  cases read <;> refine whole_three rfl rfl ?_ <;> simp [mpsseParse, tmsOp, hk']

theorem bits_whole (read : Bool) (k : Nat) (d : Byte) (h : 1 ≤ k) (hk : k ≤ 256) :
    Whole ([bitsOp read, BitVec.ofNat 8 (k - 1), d], .bits read k d) := by
  have hk' : (k - 1) % 256 + 1 = k := by omega
  cases read <;> refine whole_three rfl rfl ?_ <;> simp [mpsseParse, bitsOp, hk']

/-- The two bytes of a length minus one. -/
theorem length_operand {k : Nat} (h : 1 ≤ k) (hk : k ≤ 65536) :
    256 * (BitVec.ofNat 8 ((k - 1) / 256)).toNat + (BitVec.ofNat 8 ((k - 1) % 256)).toNat + 1 = k := by
  rw [BitVec.toNat_ofNat, BitVec.toNat_ofNat]
  omega

theorem bytes_parse (read : Bool) (lo hi : Byte) (data : List Byte) :
    mpsseParse (bytesOp read :: lo :: hi :: data) =
      if data.length = 256 * hi.toNat + lo.toNat + 1 then some (.bytes read data) else none := by
  cases read <;> simp [mpsseParse, bytesOp]

theorem bytes_whole (read : Bool) (data : List Byte) (h : 1 ≤ data.length)
    (hk : data.length ≤ 65536) :
    Whole (bytesOp read :: BitVec.ofNat 8 ((data.length - 1) % 256) ::
      BitVec.ofNat 8 ((data.length - 1) / 256) :: data, .bytes read data) := by
  refine ⟨by simp, by rw [bytes_parse, if_pos (length_operand h hk).symm], ?_⟩
  intro u v huv hu hv
  match u, hu with
  | [x], _ =>
    obtain ⟨rfl, -⟩ := List.cons.inj huv
    cases read <;> rfl
  | [x, y], _ =>
    simp only [List.cons_append, List.cons.injEq] at huv
    obtain ⟨rfl, rfl, -⟩ := huv
    cases read <;> rfl
  | x :: y :: z :: u, _ =>
    simp only [List.cons_append, List.cons.injEq] at huv
    obtain ⟨rfl, rfl, rfl, rfl⟩ := huv
    have := List.length_pos_of_ne_nil hv
    rw [bytes_parse, if_neg]
    rw [length_operand h hk, List.length_append]
    omega

/-! ## The commands of a call are whole -/

theorem tmsCodes_whole (data : List Byte) (n : Nat) : ∀ w ∈ tmsCodes data n, Whole w := by
  intro w hw
  simp only [tmsCodes, List.mem_map, List.mem_range] at hw
  obtain ⟨i, hi, rfl⟩ := hw
  exact tms_whole false _ _ (by omega) (by omega)

theorem bytesCodes_whole (data : List Byte) (len : Nat) (read : Bool) (hlen : len ≤ data.length)
    (h : len ≤ 65536) : ∀ w ∈ bytesCodes data len read, Whole w := by
  intro w hw
  unfold bytesCodes at hw
  split at hw
  · simp at hw
  · obtain rfl := List.mem_singleton.mp hw
    have hl : (data.take len).length = len := by simp; omega
    have := bytes_whole read (data.take len) (by omega) (by omega)
    rwa [hl] at this

theorem restCodes_whole (data : List Byte) (bulk : Nat) (read : Bool) :
    ∀ w ∈ restCodes data bulk read, Whole w := by
  intro w hw
  unfold restCodes at hw
  split at hw
  · simp at hw
  · obtain rfl := List.mem_singleton.mp hw
    exact bits_whole read _ _ (by omega) (by omega)

theorem scanCodes_whole (data : List Byte) (n : Nat) (flip read : Bool)
    (hlen : (if flip then n - 1 else n) / 8 ≤ data.length)
    (h : (if flip then n - 1 else n) / 8 ≤ 65536) : ∀ w ∈ scanCodes data n flip read, Whole w := by
  intro w hw
  simp only [scanCodes, List.mem_append] at hw
  rcases hw with (hw | hw) | hw
  · exact bytesCodes_whole data _ read hlen h w hw
  · exact restCodes_whole data _ read w hw
  · cases flip with
    | false => simp at hw
    | true =>
      obtain rfl := List.mem_singleton.mp hw
      exact tms_whole read 1 _ (by omega) (by omega)

theorem clockCodes_whole (n : Nat) : ∀ w ∈ clockCodes n, Whole w := by
  intro w hw
  simp only [clockCodes, clockBytesCodes, clockRestCodes, List.mem_append] at hw
  rcases hw with hw | hw
  · split at hw
    · simp at hw
    · obtain rfl := List.mem_singleton.mp hw
      have hcut : 256 * (BitVec.ofNat 8 ((n / 8 - 1) / 256) : Byte).toNat +
          (BitVec.ofNat 8 ((n / 8 - 1) % 256) : Byte).toNat = (n / 8 - 1) % 65536 := by
        rw [BitVec.toNat_ofNat, BitVec.toNat_ofNat]
        omega
      refine whole_three rfl rfl ?_
      rw [← hcut]
      rfl
  · split at hw
    · simp at hw
    · obtain rfl := List.mem_singleton.mp hw
      refine whole_two rfl ?_
      simp [mpsseParse]
      omega

theorem freqCodes_whole (freq : Nat) : ∀ w ∈ freqCodes freq, Whole w := by
  intro w hw
  simp only [freqCodes, List.mem_cons, List.not_mem_nil, or_false] at hw
  rcases hw with rfl | rfl
  · exact whole_three rfl rfl rfl
  · exact whole_one rfl

/-! ## Running the commands -/

variable (board : Board)

/-- The engine went through cycles with these pins, and answered with `rs`. -/
structure Advances (e e' : MpsseEngine) (ps : List Pins) (rs : List Byte) : Prop where
  log : e'.log = e.log ++ board.cycles e.log ps
  pins : e'.pins = lastPins e.pins ps
  resp : e'.resp = e.resp ++ rs

variable {board}

theorem Advances.refl (e : MpsseEngine) : Advances board e e [] [] := ⟨by simp, rfl, by simp⟩

theorem Advances.trans {e f g : MpsseEngine} {ps qs : List Pins} {rs ss : List Byte}
    (h : Advances board e f ps rs) (h' : Advances board f g qs ss) :
    Advances board e g (ps ++ qs) (rs ++ ss) := by
  refine ⟨?_, ?_, ?_⟩
  · rw [h'.log, h.log, cycles_append, List.append_assoc]
  · rw [h'.pins, h.pins, lastPins_append]
  · rw [h'.resp, h.resp, List.append_assoc]

def run (board : Board) (ws : List Coded) (e : MpsseEngine) : MpsseEngine :=
  ws.foldl (fun e w => mpsseExec board w.2 e) e

theorem feed_encode {ws : List Coded} (h : ∀ w ∈ ws, Whole w) (e : MpsseEngine) :
    mpsseFeed board ⟨[], e⟩ (encode ws) = ⟨[], run board ws e⟩ := by
  rw [mpsseFeed, encode, feedAll_commands h, run, List.foldl_map]

theorem run_nil (e : MpsseEngine) : run board [] e = e := rfl

theorem run_cons (w : Coded) (ws : List Coded) (e : MpsseEngine) :
    run board (w :: ws) e = run board ws (mpsseExec board w.2 e) := rfl

theorem run_append (ws vs : List Coded) (e : MpsseEngine) :
    run board (ws ++ vs) e = run board vs (run board ws e) := List.foldl_append

theorem exec_advances (board : Board) (c : MpsseCommand) (e : MpsseEngine) :
    Advances board e (mpsseExec board c e) (c.pins e.pins)
      (c.answer (board.noise e.log) ((board.cycles e.log (c.pins e.pins)).map Cycle.tdo)) :=
  ⟨rfl, rfl, rfl⟩

/-! ### TMS sequences -/

def tmsPins (data : List Byte) (n i : Nat) : List Pins :=
  (List.range (min 8 (n - i * 8))).map fun j =>
    ⟨(data.getD i 0).getLsbD j, (data.getD i 0).getLsbD 7⟩

theorem tmsPins_tms (data : List Byte) (n i : Nat) :
    (tmsPins data n i).map Pins.tms =
      (List.range (min 8 (n - i * 8))).map fun j => bitAt data (i * 8 + j) := by
  rw [tmsPins, List.map_map]
  apply List.map_congr_left
  intro j hj
  rw [List.mem_range] at hj
  have hq : (i * 8 + j) / 8 = i := by omega
  have hr : (i * 8 + j) % 8 = j := by omega
  simp only [Function.comp_apply, bitAt, hq, hr]

/-- A TMS sequence clocks exactly its bits, and answers nothing. -/
theorem tmsCodes_run (board : Board) (data : List Byte) (n : Nat) (e : MpsseEngine) :
    ∃ ps, ps.map Pins.tms = bitsOf data n ∧ Advances board e (run board (tmsCodes data n) e) ps [] := by
  have hrun : ∀ m, Advances board e (run board ((List.range m).map (tmsCode data n)) e)
      ((List.range m).flatMap (tmsPins data n)) [] := by
    intro m
    induction m with
    | zero => exact .refl e
    | succ m ih =>
      rw [List.range_succ, List.map_append, run_append, List.flatMap_append]
      have hstep := exec_advances board (tmsCode data n m).2
        (run board ((List.range m).map (tmsCode data n)) e)
      rw [List.flatMap_singleton]
      exact ih.trans hstep
  refine ⟨_, ?_, hrun ((n + 7) / 8)⟩
  rw [List.map_flatMap]
  simp only [tmsPins_tms]
  rw [range_groups (bitAt data) n, bitsOf]
  congr 2
  omega

/-! ### The clock, and its frequency -/

theorem lastPins_replicate (p : Pins) (n : Nat) : lastPins p (List.replicate n p) = p := by
  cases n with
  | zero => rfl
  | succ n => simp [lastPins, List.replicate_succ']

theorem clockBytesCodes_run (board : Board) (len : Nat) (e : MpsseEngine) :
    Advances board e (run board (clockBytesCodes len) e)
      (List.replicate (if len = 0 then 0 else 8 * ((len - 1) % 65536 + 1)) e.pins) [] := by
  unfold clockBytesCodes
  split
  · exact .refl e
  · exact exec_advances board (.clock (8 * ((len - 1) % 65536 + 1))) e

theorem clockRestCodes_run (board : Board) (n : Nat) (e : MpsseEngine) :
    Advances board e (run board (clockRestCodes n) e) (List.replicate (n % 8) e.pins) [] := by
  unfold clockRestCodes
  split
  · rename_i h
    rw [h]
    exact .refl e
  · exact exec_advances board (.clock (n % 8)) e

/-- The clock runs, with the pins held. -/
theorem clockCodes_run (board : Board) (n : Nat) (e : MpsseEngine) :
    Advances board e (run board (clockCodes n) e) (List.replicate (clocked n) e.pins) [] := by
  have hbytes := clockBytesCodes_run board (n / 8) e
  have hrest := clockRestCodes_run board n (run board (clockBytesCodes (n / 8)) e)
  have hpins := hbytes.pins
  rw [lastPins_replicate] at hpins
  rw [hpins] at hrest
  have h := hbytes.trans hrest
  rw [← List.replicate_add] at h
  rwa [clockCodes, run_append]

theorem freqCodes_run (board : Board) (freq : Nat) (e : MpsseEngine) :
    Advances board e (run board (freqCodes freq) e) [] [] :=
  (exec_advances board .other e).trans (exec_advances board .other _)

/-! ### Scans -/

/-- The answer to a read of a few bits. -/
def restAnswer (noise : Byte) (t : List Bool) : List Byte :=
  if t = [] then [] else [topBits noise t]

/-- The bytes that the chip returns for a read scan whose cycles have these TDO bits. -/
def ScanAnswer (n : Nat) (flip : Bool) (tdo : List Bool) (rs : List Byte) : Prop :=
  ∃ t u v a b, tdo = t ++ u ++ v ∧ t.length = 8 * ((if flip then n - 1 else n) / 8) ∧
    u.length = (if flip then n - 1 else n) % 8 ∧ v.length = (if flip then 1 else 0) ∧
    rs = packBits t ++ restAnswer a u ++ restAnswer b v

/-- What a part of a scan answers. -/
def PartAnswer (read : Bool) (tdo : List Bool) (f : Byte → List Bool → List Byte) (rs : List Byte) :
    Prop :=
  (read = false → rs = []) ∧ (read = true → ∃ a, rs = f a tdo)

theorem bytesCodes_run (board : Board) (data : List Byte) (len : Nat) (read : Bool) (e : MpsseEngine)
    (hlen : len ≤ data.length) :
    ∃ rs, Advances board e (run board (bytesCodes data len read) e) (heldPins e.pins.tms data 0 (8 * len)) rs ∧
      PartAnswer read ((board.cycles e.log (heldPins e.pins.tms data 0 (8 * len))).map Cycle.tdo)
        (fun _ => packBits) rs := by
  unfold bytesCodes
  split
  · rename_i h
    subst h
    refine ⟨[], .refl e, fun _ => rfl, fun _ => ⟨0, ?_⟩⟩
    simp [heldPins, packBits]
  · have hpins : MpsseCommand.pins e.pins (.bytes read (data.take len)) =
        heldPins e.pins.tms data 0 (8 * len) := by
      have hl : (data.take len).length = len := by simp; omega
      simp only [MpsseCommand.pins, bitsOf, heldPins, List.map_map, hl]
      apply List.map_congr_left
      intro i hi
      rw [List.mem_range] at hi
      simp [bitAt_take, hi]
    have h := exec_advances board (.bytes read (data.take len)) e
    rw [hpins] at h
    refine ⟨_, h, ?_, ?_⟩
    · rintro rfl
      rfl
    · rintro rfl
      exact ⟨0, rfl⟩

theorem restCodes_run (board : Board) (data : List Byte) (bulk : Nat) (read : Bool) (e : MpsseEngine) :
    ∃ rs, Advances board e (run board (restCodes data bulk read) e)
        (heldPins e.pins.tms data (8 * (bulk / 8)) (bulk % 8)) rs ∧
      PartAnswer read
        ((board.cycles e.log (heldPins e.pins.tms data (8 * (bulk / 8)) (bulk % 8))).map Cycle.tdo)
        restAnswer rs := by
  unfold restCodes
  split
  · rename_i h
    rw [h]
    refine ⟨[], .refl e, fun _ => rfl, fun _ => ⟨0, ?_⟩⟩
    simp [heldPins, restAnswer]
  · rename_i hne
    have hpins : MpsseCommand.pins e.pins (.bits read (bulk % 8) (data.getD (bulk / 8) 0)) =
        heldPins e.pins.tms data (8 * (bulk / 8)) (bulk % 8) := by
      simp only [MpsseCommand.pins, heldPins]
      apply List.map_congr_left
      intro i hi
      rw [List.mem_range] at hi
      have hq : (8 * (bulk / 8) + i) / 8 = bulk / 8 := by omega
      have hr : (8 * (bulk / 8) + i) % 8 = i := by omega
      simp only [bitAt, hq, hr]
    have h := exec_advances board (.bits read (bulk % 8) (data.getD (bulk / 8) 0)) e
    rw [hpins] at h
    refine ⟨_, h, ?_, ?_⟩
    · rintro rfl
      rfl
    · rintro rfl
      refine ⟨board.noise e.log, ?_⟩
      rw [restAnswer, if_neg]
      · rfl
      · intro hnil
        have := congrArg List.length hnil
        simp only [List.length_map, cycles_length, heldPins, List.length_range, List.length_nil] at this
        exact hne this

theorem lastByte_tms (bit : Bool) : (lastByte bit).getLsbD 0 = true := by cases bit <;> decide

theorem lastByte_tdi (bit : Bool) : (lastByte bit).getLsbD 7 = bit := by cases bit <;> decide

theorem lastCode_run (board : Board) (data : List Byte) (n : Nat) (read : Bool) (e : MpsseEngine) :
    ∃ rs, Advances board e (run board [lastCode data n read] e) [⟨true, bitAt data (n - 1)⟩] rs ∧
      PartAnswer read ((board.cycles e.log [⟨true, bitAt data (n - 1)⟩]).map Cycle.tdo)
        restAnswer rs := by
  have hpins : MpsseCommand.pins e.pins (lastCode data n read).2 = [⟨true, bitAt data (n - 1)⟩] := by
    simp only [lastCode, MpsseCommand.pins, List.range_one, List.map_cons, List.map_nil,
      lastByte_tms, lastByte_tdi]
  have h := exec_advances board (lastCode data n read).2 e
  rw [hpins] at h
  refine ⟨_, h, ?_, ?_⟩
  · rintro rfl
    rfl
  · rintro rfl
    exact ⟨board.noise e.log, rfl⟩

theorem bulkCodes_run (board : Board) (data : List Byte) (bulk : Nat) (read : Bool) (e : MpsseEngine)
    (hlen : bulk / 8 ≤ data.length) :
    ∃ rs, Advances board e (run board (bytesCodes data (bulk / 8) read ++ restCodes data bulk read) e)
        (heldPins e.pins.tms data 0 bulk) rs ∧
      (read = false → rs = []) ∧
      (read = true → ∃ t u a, (board.cycles e.log (heldPins e.pins.tms data 0 bulk)).map Cycle.tdo = t ++ u ∧
        t.length = 8 * (bulk / 8) ∧ u.length = bulk % 8 ∧ rs = packBits t ++ restAnswer a u) := by
  obtain ⟨rs, h, hrs, hrs'⟩ := bytesCodes_run board data (bulk / 8) read e hlen
  rw [run_append]
  set f := run board (bytesCodes data (bulk / 8) read) e
  obtain ⟨ss, h', hss, hss'⟩ := restCodes_run board data bulk read f
  have hlevel : f.pins.tms = e.pins.tms := by
    rw [h.pins]
    exact heldPins_level _ _ _ _
  rw [hlevel] at h' hss'
  have hpins : heldPins e.pins.tms data 0 bulk = heldPins e.pins.tms data 0 (8 * (bulk / 8)) ++
      heldPins e.pins.tms data (8 * (bulk / 8)) (bulk % 8) := by
    have := heldPins_append e.pins.tms data 0 (8 * (bulk / 8)) (bulk % 8)
    rwa [Nat.div_add_mod, Nat.zero_add] at this
  rw [hpins]
  refine ⟨rs ++ ss, h.trans h', ?_, ?_⟩
  · intro hr
    rw [hrs hr, hss hr]
    rfl
  · intro hr
    obtain ⟨_, rfl⟩ := hrs' hr
    obtain ⟨a, rfl⟩ := hss' hr
    refine ⟨_, _, a, ?_, ?_, ?_, rfl⟩
    · rw [cycles_append, List.map_append, h.log]
    · simp [heldPins]
    · simp [heldPins]

/-- The cycles of a scan that finds TMS at some level. -/
def scanPinsAt (tms : Bool) (data : List Byte) (n : Nat) (flip : Bool) : List Pins :=
  heldPins tms data 0 (if flip then n - 1 else n) ++ if flip then [⟨true, bitAt data (n - 1)⟩] else []

theorem scanPinsAt_low (data : List Byte) {n : Nat} (flip : Bool) (hn : 1 ≤ n) :
    scanPinsAt false data n flip = scanPins data n flip := (scanPins_split data n flip hn).symm

theorem scanPinsAt_shifts (tms : Bool) (data : List Byte) {n : Nat} (flip : Bool) (hn : 1 ≤ n) :
    Shifts data n flip (scanPinsAt tms data n flip) := by
  have h := @shifts_of_parts data n _ _ flip hn (Nat.add_zero _) tms tms
  rwa [show heldPins tms data (if flip then n - 1 else n) 0 = [] from rfl, List.append_nil] at h

/-- A scan clocks exactly its bits, and a read answers with their TDO. -/
theorem scanCodes_run_at (board : Board) (data : List Byte) (n : Nat) (flip read : Bool) (e : MpsseEngine)
    (hlen : (if flip then n - 1 else n) / 8 ≤ data.length) :
    ∃ rs, Advances board e (run board (scanCodes data n flip read) e) (scanPinsAt e.pins.tms data n flip) rs ∧
      (read = false → rs = []) ∧
      (read = true →
        ScanAnswer n flip ((board.cycles e.log (scanPinsAt e.pins.tms data n flip)).map Cycle.tdo) rs) := by
  obtain ⟨rs, h, hrs, hrs'⟩ := bulkCodes_run board data _ read e hlen
  unfold scanPinsAt scanCodes
  rw [run_append]
  set f := run board (bytesCodes data ((if flip then n - 1 else n) / 8) read ++
    restCodes data (if flip then n - 1 else n) read) e
  cases flip with
  | false =>
    refine ⟨rs, by simpa [run_nil] using h, hrs, ?_⟩
    intro hr
    obtain ⟨t, u, a, htu, ht, hu, rfl⟩ := hrs' hr
    refine ⟨t, u, [], a, 0, ?_, ht, hu, rfl, by simp [restAnswer]⟩
    simpa using htu
  | true =>
    obtain ⟨ss, h', hss, hss'⟩ := lastCode_run board data n read f
    refine ⟨rs ++ ss, h.trans h', ?_, ?_⟩
    · intro hr
      rw [hrs hr, hss hr]
      rfl
    · intro hr
      obtain ⟨t, u, a, htu, ht, hu, rfl⟩ := hrs' hr
      obtain ⟨b, rfl⟩ := hss' hr
      refine ⟨t, u, _, a, b, ?_, ht, hu, ?_, rfl⟩
      · simp only [if_true] at htu h ⊢
        rw [cycles_append, List.map_append, htu, h.log]
      · simp

end JtagRemote.Mpsse
