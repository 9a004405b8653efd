import JtagRemote.Code.Common

/-!
# `main.cpp`

What follows the options. The speed that is printed once a second is left out, and so are the sockets
of the servers; a listener that was not set up lets no client in.
-/

namespace JtagRemote

/-- `tick` is the one of the protocol, and `rounds` what it meets each time until SIGINT. -/
def main {σ ι : Type} (usb_vid_pid_used usb_bus_dev_used : Bool) (adapter_init : EStateM Fault σ Bool)
    (tick : ι → EStateM Fault σ Unit) (rounds : List ι) : EStateM Fault σ Nat := do
  if usb_vid_pid_used && usb_bus_dev_used then pure 1
  else if ← adapter_init then
    rounds.forM tick
    pure 0
  else pure 1

end JtagRemote
