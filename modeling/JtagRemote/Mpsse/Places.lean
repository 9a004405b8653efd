import JtagRemote.Mpsse.Lockstep
import JtagRemote.Hardware.MpsseEngine

/-!
# The chip on two wires

From chips at the same place the same bytes clock the same cycles and get the same answers. The
levels of the pins need not be the same when a TMS command comes first, as it sets both of them.
-/

namespace JtagRemote.Mpsse

variable {board : Board} {usb : Usb} {e₀ : MpsseEngine}

/-! ## The chip -/

/-- Since `g` and `g'` the chips have done the same, and they go on so. -/
structure Alongside (g g' f f' : Fed Byte MpsseEngine) : Prop where
  waiting : f'.waiting = f.waiting
  pins : f'.machine.pins = f.machine.pins ∨ f.waiting.head? = some 0x4B
  cycles : Extended g.machine.log g'.machine.log f.machine.log f'.machine.log
  answers : Extended g.machine.resp g'.machine.resp f.machine.resp f'.machine.resp

/-- The command is there with its third byte. -/
theorem parse_tms {l : List Byte} {cmd : MpsseCommand} (hhead : l.head? = some 0x4B) (h : mpsseParse l = some cmd) :
    ∃ k d, cmd = .tms false (k + 1) d := by
  match l, hhead with
  | [], hhead => cases hhead
  | op :: args, hhead =>
    obtain rfl : op = 0x4B := Option.some.inj hhead
    match args with
    | [] => cases h
    | [_] => cases h
    | [len, d] => exact ⟨len.toNat, d, (Option.some.inj h).symm⟩
    | _ :: _ :: _ :: _ => cases h

variable {g g' f f' : Fed Byte MpsseEngine}

theorem Alongside.exec (h : Alongside g g' f f') (hboard : board.Alike g.machine.log g'.machine.log)
    {cmd : MpsseCommand} (hpins : f'.machine.pins = f.machine.pins ∨ ∃ k d, cmd = .tms false (k + 1) d) :
    Alongside g g' ⟨[], mpsseExec board cmd f.machine⟩ ⟨[], mpsseExec board cmd f'.machine⟩ := by
  have halike := hboard.goes_on h.cycles
  have hsame : cmd.pins f'.machine.pins = cmd.pins f.machine.pins := by
    rcases hpins with heq | ⟨k, d, rfl⟩
    · rw [heq]
    · rfl
  have hlast : lastPins f'.machine.pins (cmd.pins f.machine.pins) = lastPins f.machine.pins (cmd.pins f.machine.pins) := by
    rcases hpins with heq | ⟨k, d, rfl⟩
    · rw [heq]
    · simp [lastPins, MpsseCommand.pins, List.range_succ]
  have hcycles := halike.cycles (cmd.pins f.machine.pins)
  refine ⟨rfl, .inl ?_, ?_, ?_⟩
  · simp only [mpsseExec, hsame, hlast]
  · simp only [mpsseExec, hsame, hcycles]
    exact h.cycles.append _
  · simp only [mpsseExec, hsame, hcycles, halike.noise_eq]
    exact h.answers.append _

/-- One more byte. -/
theorem Alongside.feed (h : Alongside g g' f f') (hboard : board.Alike g.machine.log g'.machine.log) (b : Byte) :
    Alongside g g' (JtagRemote.feed mpsseParse (mpsseExec board) f b)
      (JtagRemote.feed mpsseParse (mpsseExec board) f' b) := by
  unfold JtagRemote.feed
  rw [h.waiting]
  have hhead : f'.machine.pins = f.machine.pins ∨ (f.waiting ++ [b]).head? = some 0x4B := by
    refine h.pins.imp_right fun hhead => ?_
    rw [List.head?_append, hhead]
    rfl
  cases hparse : mpsseParse (f.waiting ++ [b]) with
  | none => exact ⟨rfl, hhead, h.cycles, h.answers⟩
  | some cmd => exact h.exec hboard (hhead.imp_right fun hhead => parse_tms hhead hparse)

theorem Alongside.feedAll (h : Alongside g g' f f') (hboard : board.Alike g.machine.log g'.machine.log)
    (l : List Byte) : Alongside g g' (mpsseFeed board f l) (mpsseFeed board f' l) := by
  induction l generalizing f f' with
  | nil => exact h
  | cons b l ih => exact ih (h.feed hboard b)

/-- What may come first: any byte when the pins are at the same levels, else a TMS command. -/
theorem alongside_from (hboard : board.Alike g.machine.log g'.machine.log) (hwaiting : g'.waiting = g.waiting)
    (hpins : g'.machine.pins = g.machine.pins ∨ g.waiting = []) {l : List Byte}
    (hfirst : ∀ b ∈ l.head?, g'.machine.pins = g.machine.pins ∨ b = 0x4B) :
    Extended g.machine.log g'.machine.log (mpsseFeed board g l).machine.log (mpsseFeed board g' l).machine.log ∧
    Extended g.machine.resp g'.machine.resp (mpsseFeed board g l).machine.resp
      (mpsseFeed board g' l).machine.resp := by
  have hdone : ∀ {f f'}, Alongside g g' f f' → ∀ m,
      Extended g.machine.log g'.machine.log (mpsseFeed board f m).machine.log (mpsseFeed board f' m).machine.log ∧
      Extended g.machine.resp g'.machine.resp (mpsseFeed board f m).machine.resp
        (mpsseFeed board f' m).machine.resp := fun h m =>
    ⟨(h.feedAll hboard m).cycles, (h.feedAll hboard m).answers⟩
  have hsame : g'.machine.pins = g.machine.pins → Alongside g g' g g' := fun hpins =>
    ⟨hwaiting, .inl hpins, .refl _ _, .refl _ _⟩
  rcases hpins with hpins | hnil
  · exact hdone (hsame hpins) l
  · cases l with
    | nil => exact ⟨.refl _ _, .refl _ _⟩
    | cons b l =>
      have hnil' : g'.waiting = [] := hwaiting.trans hnil
      rcases hfirst b rfl with hpins | rfl
      · exact hdone (hsame hpins) (b :: l)
      · have hstart : ∀ k : Fed Byte MpsseEngine, k.waiting = [] →
            mpsseFeed board k (0x4B :: l) = mpsseFeed board ⟨[0x4B], k.machine⟩ l := by
          rintro ⟨waiting, machine⟩ rfl
          rfl
        have hbegun : Alongside g g' ⟨[0x4B], g.machine⟩ ⟨[0x4B], g'.machine⟩ := ⟨rfl, .inr rfl, .refl _ _, .refl _ _⟩
        rw [hstart g hnil, hstart g' hnil']
        exact hdone hbegun l

/-! ## Two drivers -/

/-- The chip, when it has taken what the driver sent. -/
def chip (board : Board) (e₀ : MpsseEngine) (dev : Mpsse) : Fed Byte MpsseEngine :=
  mpsseFeed board ⟨[], e₀⟩ dev.port.delivered

/-- The cycles so far. -/
def cyclesOf (board : Board) (e₀ : MpsseEngine) (dev : Mpsse) : List Cycle := (chip board e₀ dev).machine.log

/-- The TAP is in the same state, the same commands wait to be sent, the chip is at the same place, and the board and
libftdi go on alike. The pins are at the same levels, or else the next write goes through and the chip is between two
commands. -/
structure SamePlace (board : Board) (usb : Usb) (e₀ : MpsseEngine) (c c' : Jtag Mpsse) : Prop where
  state : c'.state = c.state
  unsent : c'.dev.mpsse_buffer = c.dev.mpsse_buffer
  waiting : (chip board e₀ c'.dev).waiting = (chip board e₀ c.dev).waiting
  pins : (chip board e₀ c'.dev).machine.pins = (chip board e₀ c.dev).machine.pins ∨
    c.dev.mpsse_buffer = [] ∧ (chip board e₀ c.dev).waiting = [] ∧ usb.write_result c.dev.port.num_writes = .full
  board : board.Alike (cyclesOf board e₀ c.dev) (cyclesOf board e₀ c'.dev)
  unread : usb.waiting c'.dev.port = usb.waiting c.dev.port
  read : c.dev.port.taken ≤ (usb.respond c.dev.port.delivered).length
  read' : c'.dev.port.taken ≤ (usb.respond c'.dev.port.delivered).length
  writes : ∀ k, usb.write_result (c'.dev.port.num_writes + k) = usb.write_result (c.dev.port.num_writes + k)
  reads : ∀ k, usb.read_result (c'.dev.port.num_reads + k) = usb.read_result (c.dev.port.num_reads + k)

section

variable {c c' d d' : Jtag Mpsse} (h : SamePlace board usb e₀ c c')
  (hdevice : ∀ l, usb.respond l = (mpsseFeed board ⟨[], e₀⟩ l).machine.resp)

include h

theorem SamePlace.from {l : List Byte} (hfirst : ∀ b ∈ l.head?,
    (chip board e₀ c'.dev).machine.pins = (chip board e₀ c.dev).machine.pins ∨ b = 0x4B) :
    Extended (cyclesOf board e₀ c.dev) (cyclesOf board e₀ c'.dev)
      (mpsseFeed board ⟨[], e₀⟩ (c.dev.port.delivered ++ l)).machine.log
      (mpsseFeed board ⟨[], e₀⟩ (c'.dev.port.delivered ++ l)).machine.log ∧
    Extended (chip board e₀ c.dev).machine.resp (chip board e₀ c'.dev).machine.resp
      (mpsseFeed board ⟨[], e₀⟩ (c.dev.port.delivered ++ l)).machine.resp
      (mpsseFeed board ⟨[], e₀⟩ (c'.dev.port.delivered ++ l)).machine.resp := by
  rw [mpsseFeed_append, mpsseFeed_append]
  exact alongside_from h.board h.waiting (h.pins.imp_right fun hnext => hnext.2.1) hfirst

include hdevice

theorem SamePlace.answers {l : List Byte} (hfirst : ∀ b ∈ l.head?,
    (chip board e₀ c'.dev).machine.pins = (chip board e₀ c.dev).machine.pins ∨ b = 0x4B) :
    (usb.respond (c'.dev.port.delivered ++ l)).drop c'.dev.port.taken =
      (usb.respond (c.dev.port.delivered ++ l)).drop c.dev.port.taken := by
  obtain ⟨rs, hrs, hrs'⟩ := (h.from hfirst).2
  have hcome : usb.respond (c.dev.port.delivered ++ l) = usb.respond c.dev.port.delivered ++ rs := by
    rw [hdevice, hdevice, hrs, chip]
  have hcome' : usb.respond (c'.dev.port.delivered ++ l) = usb.respond c'.dev.port.delivered ++ rs := by
    rw [hdevice, hdevice, hrs', chip]
  exact unread_append h.read h.read' h.unread hcome hcome'

/-- The two ports, from there on. -/
def SamePlace.wire : Wire where
  usb := usb
  start := c.dev.port
  start' := c'.dev.port
  first b := (chip board e₀ c'.dev).machine.pins = (chip board e₀ c.dev).machine.pins ∨ b = 0x4B
  answers _ hfirst := h.answers hdevice hfirst
  writes := h.writes
  reads := h.reads

theorem SamePlace.starting : Starting (h.wire hdevice) c c' := by
  refine ⟨⟨h.state, h.unsent, .start (h.wire hdevice)⟩, ?_⟩
  rcases h.pins with hpins | ⟨hnil, -, hfull⟩
  · exact .inl (.inl (.inl fun _ => .inl hpins))
  · exact .inr ⟨hnil, hfull⟩

/-- What went out was the same, and so were the cycles. -/
theorem SamePlace.cycles (hseen : Watched (h.wire hdevice) d d') :
    Extended (cyclesOf board e₀ c.dev) (cyclesOf board e₀ c'.dev) (cyclesOf board e₀ d.dev)
      (cyclesOf board e₀ d'.dev) := by
  obtain ⟨l, hl, hl', hfirst⟩ := hseen
  have hd : cyclesOf board e₀ d.dev = (mpsseFeed board ⟨[], e₀⟩ (c.dev.port.delivered ++ l)).machine.log := by
    rw [cyclesOf, chip, hl]
    rfl
  have hd' : cyclesOf board e₀ d'.dev = (mpsseFeed board ⟨[], e₀⟩ (c'.dev.port.delivered ++ l)).machine.log := by
    rw [cyclesOf, chip, hl']
    rfl
  rw [hd, hd']
  exact (h.from hfirst).1

end

end JtagRemote.Mpsse
