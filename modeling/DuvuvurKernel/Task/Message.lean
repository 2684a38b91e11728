import Mathlib.Init

/-!
# Messages

`message.hpp`: what tasks send one another. The source's `Message` is a tag with a
union; here each tag is a constructor with the member of the union it goes with.
-/

namespace DuvuvurKernel

/-- `LayerOperation`. -/
inductive LayerOperation where
  | move
  | moveRelative
  | draw
  | drawArea
  deriving DecidableEq, Repr

/-- `Message::type` together with the member of `Message::arg` that goes with it. -/
inductive MessageArg where
  | interruptXHCI
  | timerTimeout (timeout : UInt64) (value : Int32)
  | keyPush (modifier keycode : UInt8) (unicode : UInt32) (press : Bool)
  | layer (op : LayerOperation) (layerID : UInt32) (x y w h : Int32)
  | layerFinish
  | mouseMove (x y dx dy : Int32) (buttons : UInt8)
  | mouseButton (x y : Int32) (press : Bool) (button : Int32)
  | windowActive (activate : Bool)
  | pipe (data : List UInt8)
  | windowClose (layerID : UInt32)
  deriving DecidableEq

/-- `Message`. -/
structure Message where
  /-- `src_task`. -/
  srcTask : UInt64
  /-- `type` and `arg`. -/
  arg : MessageArg
  deriving DecidableEq

end DuvuvurKernel
