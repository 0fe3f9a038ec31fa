import KmControl.Held
import KmControl.Machine
import Mathlib.Data.Nat.Notation

/-!
The keyboard and mouse hook process of the admin: what it does with the events of
its two hooks and with the lines of its standard input. Each event is handled at
once. The lines it puts out are kept as a list, and so are the key strokes it
passes on to the local desktop; the process reads neither.
-/
namespace KmControl.Keyhook

open Held

/-- A virtual-key code. The system uses the codes 1 to 254. -/
structure VkCode where
  val : UInt32
  valid : 1 ≤ val ∧ val ≤ 254
deriving DecidableEq

/-- The index `vkCode & 0xff` into the table of keys. -/
def VkCode.slot (vk : VkCode) : UInt8 := vk.val.toUInt8

inductive Line where
  | key (code : UInt32) (down : Bool)
  | mouseMove (x y w h : Int32)
  | button (number : UInt8) (down : Bool)
  | scroll (amount : Int16)
  | hover (on : Bool)
deriving DecidableEq, Repr

inductive Command where
  | streaming (on : Bool)
  | focused (on : Bool)
  | rect (l t r b : Int32)
  /-- Any line that is none of these. -/
  | other
deriving DecidableEq, Repr

inductive MouseMessage where
  | lButton (down : Bool)
  | rButton (down : Bool)
  | mButton (down : Bool)
  | xButton (down : Bool)
  | move
  | wheel
  | hWheel
  | other
deriving DecidableEq, Repr

structure Sidecar where
  streaming : Bool
  focused : Bool
  hovering : Bool
  rectSet : Bool
  rectL : Int32
  rectT : Int32
  rectR : Int32
  rectB : Int32
  /-- The keys whose last down went to the remote side. -/
  keyRemote : UInt8 → Bool
  /-- The same for the buttons 1 to 5. -/
  btnRemote : UInt8 → Bool
  out : List Line
  desktop : List (Stroke UInt32)
  /-- A panic in a hook ends the process. -/
  running : Bool

inductive Event where
  | key (vk : VkCode) (down : Bool)
  | mouse (message : MouseMessage) (mouseData : UInt32) (px py : Int32)
  | command (c : Command)

namespace Sidecar

def new : Sidecar where
  streaming := false
  focused := false
  hovering := false
  rectSet := false
  rectL := 0
  rectT := 0
  rectR := 0
  rectB := 0
  keyRemote := fun _ => false
  btnRemote := fun _ => false
  out := []
  desktop := []
  running := true

def active (s : Sidecar) : Bool := s.streaming && s.focused && s.hovering

def emit (s : Sidecar) (line : Line) : Sidecar := { s with out := s.out ++ [line] }

def setKeyRemote (s : Sidecar) (slot : UInt8) (on : Bool) : Sidecar :=
  { s with keyRemote := fun i => if i = slot then on else s.keyRemote i }

def setBtnRemote (s : Sidecar) (number : UInt8) (on : Bool) : Sidecar :=
  { s with btnRemote := fun i => if i = number then on else s.btnRemote i }

def passOn (s : Sidecar) (vk : VkCode) (down : Bool) : Sidecar :=
  { s with desktop := s.desktop ++ [⟨vk.val, down⟩] }

def slots : List UInt8 := (List.range 256).map UInt8.ofNat

def buttons : List UInt8 := [1, 2, 3, 4, 5]

/-- The ups that `release_all_remote` puts out. -/
def releases (s : Sidecar) : List Line :=
  (slots.filter s.keyRemote).map (fun slot => Line.key slot.toUInt32 false) ++
    (buttons.filter s.btnRemote).map fun number => Line.button number false

def releaseAllRemote (s : Sidecar) : Sidecar :=
  { s with
    keyRemote := fun _ => false, btnRemote := fun i => s.btnRemote i && !buttons.contains i,
    out := s.out ++ s.releases }

/-- A down belongs to the side that the gate points to, an up to the side that its
down went to. -/
def kbdProc (s : Sidecar) (vk : VkCode) (down : Bool) : Sidecar :=
  if down then
    if s.active then (s.setKeyRemote vk.slot true).emit (Line.key vk.val true)
    else s.passOn vk true
  else if s.keyRemote vk.slot then (s.setKeyRemote vk.slot false).emit (Line.key vk.val false)
  else s.passOn vk false

/-- Set the hover flag and report a change. -/
def setHovering (s : Sidecar) (inside : Bool) : Sidecar :=
  if inside = s.hovering then s
  else { s with hovering := inside }.emit (Line.hover inside)

/-- `Ord::clamp`, which panics for bounds in the wrong order. -/
def clamp (x lo hi : Int32) : Option Int32 :=
  if hi < lo then none else if x < lo then some lo else if hi < x then some hi else some x

/-- The hover flag and, inside the rectangle, the position relative to it with its
size. `none` is a panic. -/
def updateHover (s : Sidecar) (px py : Int32) :
    Option (Sidecar × Option (Int32 × Int32 × Int32 × Int32)) :=
  if !s.rectSet then some (s.setHovering false, none)
  else
    let inside := decide (s.rectL ≤ px) && decide (px < s.rectR) && decide (s.rectT ≤ py) &&
      decide (py < s.rectB)
    let s' := s.setHovering inside
    if !inside || decide (s.rectR ≤ s.rectL) || decide (s.rectB ≤ s.rectT) then some (s', none)
    else do
      let w := s.rectR - s.rectL
      let h := s.rectB - s.rectT
      let x ← clamp (px - s.rectL) 0 (w - 1)
      let y ← clamp (py - s.rectT) 0 (h - 1)
      some (s', some (x, y, w, h))

/-- The number of the button and whether it goes down. -/
def button (message : MouseMessage) (mouseData : UInt32) : Option (UInt8 × Bool) :=
  match message with
  | .lButton down => some (1, down)
  | .rButton down => some (3, down)
  | .mButton down => some (2, down)
  | .xButton down => some (if (mouseData >>> 16).toUInt16 = 1 then 4 else 5, down)
  | _ => none

def onButton (s : Sidecar) (number : UInt8) (down : Bool) : Sidecar :=
  if down then
    if s.active then (s.setBtnRemote number true).emit (Line.button number true) else s
  else if s.btnRemote number then
    (s.setBtnRemote number false).emit (Line.button number false)
  else s

/-- Movements and the wheel are mirrored while the gate is open. -/
def onMotion (s : Sidecar) (message : MouseMessage) (mouseData : UInt32)
    (mapped : Option (Int32 × Int32 × Int32 × Int32)) : Sidecar :=
  if !s.active then s
  else match message, mapped with
    | .move, some (x, y, w, h) => s.emit (Line.mouseMove x y w h)
    | .wheel, _ => s.emit (Line.scroll (mouseData >>> 16).toUInt16.toInt16)
    | _, _ => s

def mouseProc (s : Sidecar) (message : MouseMessage) (mouseData : UInt32) (px py : Int32) :
    Sidecar :=
  match s.updateHover px py with
  | none => { s with running := false }
  | some (s, mapped) =>
    match button message mouseData with
    | some (number, down) => s.onButton number down
    | none => s.onMotion message mouseData mapped

def onCommand (s : Sidecar) : Command → Sidecar
  | .streaming true => { s with streaming := true }
  | .streaming false => { s with streaming := false }.releaseAllRemote
  | .focused on => { s with focused := on }
  | .rect l t r b =>
    { s with
      rectL := l, rectT := t, rectR := r, rectB := b,
      rectSet := decide (l < r) && decide (t < b) }
  | .other => s

end Sidecar

def handle (s : Sidecar) : Event → Sidecar
  | .key vk down => s.kbdProc vk down
  | .mouse message mouseData px py => s.mouseProc message mouseData px py
  | .command c => s.onCommand c

def step (s : Sidecar) (ev : Event) : Sidecar := if s.running then handle s ev else s

def machine : Machine Sidecar Event where
  init := Sidecar.new
  step := step

end KmControl.Keyhook
