import PrefixScan.Config.Settings

/-!
# Devices

What a scan needs to know of the device it runs on: whether it has plane instructions, the
dimensions of its planes, and whether it can time its work.

## Main definitions

* `Device.settings` — the kernel settings of a configuration on a device.
-/

namespace PrefixScan

/-- Capabilities of a device. -/
structure Device where
  /-- Whether there are plane instructions. -/
  planes : Bool := true
  /-- Least plane dimension. -/
  planeMin : Index
  /-- Greatest plane dimension. -/
  planeMax : Index
  /-- Whether submitted work can be timed. -/
  timing : Bool := true
deriving DecidableEq, Repr

/-- The settings of `config` on the device. The scan relies on plane instructions, and kernels are
expanded for one plane dimension, so the device must have exactly one. -/
def Device.settings (device : Device) (config : Config) : Except ScanError Settings :=
  if !device.planes then .error .planesUnavailable
  else if device.planeMin ≠ device.planeMax then .error .imprecisePlaneDim
  else Settings.ofConfig config device.planeMin

end PrefixScan
