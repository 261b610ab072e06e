import SpectralCoding.Atrac3.SpectrumCoding

/-!
# Tonal components of an ATRAC3 sound unit

A tonal component is a short run of lines coded apart from the spectrum. Components of one selector
and one length go together in groups:

    5       number of groups; if it is not zero:
    2       zero for words of variable length, one for fixed length
            every group:
    4         which of the four bands have a component
    3         length of the components less one
    3         selector
              every 64-line window of these bands:
    3           number of components
    6 6         scale factor index and place in the window of every component, and its mantissas

* `Atrac3.TonalComponent`, `Atrac3.TonalGroup`, `Atrac3.TonalGroups` : a component, a group, and all
  of them.
* `TonalGroups.build` : components sorted into groups. A window of a group holds seven components;
  one more opens another group.
* `TonalGroups.emit` : the serialisation.
-/

namespace SpectralCoding

namespace Atrac3

/-- The most components of a window of one group. -/
def mostPerWindow : Nat := 7

/-- The most groups. -/
def mostGroups : Nat := 31

/-- The lines of a window. -/
def windowLines : Nat := 64

/-- The windows of a band. -/
def bandWindows : Nat := 4

/-- A tonal component. -/
structure TonalComponent where
  /-- The first line. -/
  position : Nat
  /-- The block in which it was found. -/
  block : Nat
  selector : Nat
  scaled : ScaledBlock
  mantissas : List Int
  deriving Inhabited

namespace TonalComponent

/-- The window a component lies in. -/
def window (c : TonalComponent) : Nat := c.position / windowLines

/-- The number of mantissas. -/
def length (c : TonalComponent) : Nat := c.mantissas.length

end TonalComponent

/-- Components of one selector and one length, in ascending order of position. -/
structure TonalGroup where
  selector : Nat
  length : Nat
  components : List TonalComponent
  deriving Inhabited

/-- The components in a window. -/
def inWindow (window : Nat) (cs : List TonalComponent) : List TonalComponent :=
  cs.filter (·.window == window)

namespace TonalGroup

variable (g : TonalGroup)

/-- The group has a component in a band. -/
def usesBand (band : Nat) : Bool := g.components.any (·.window / bandWindows == band)

/-- The bands in which the group has a component. -/
def bands : List Nat := (List.range Layout.atrac3.bands).filter g.usesBand

/-- The windows whose components are written. -/
def windows : List Nat :=
  g.bands.flatMap fun band => (List.range bandWindows).map (band * bandWindows + ·)

/-- The number of bits of all fields but the mantissas. -/
def sideCost : Nat :=
  Layout.atrac3.bands + 3 + 3 + g.bands.length * bandWindows * 3 + g.components.length * 12

/-- What the mantissas are taken to need in words of fixed length. -/
def fixedCost : Nat := (g.components.map fun c => fixedWidth g.selector * c.length).sum

/-- What the mantissas need in words of variable length, if all have one. -/
def variableCost : Option Nat :=
  g.components.foldr (fun c total => addCosts (Atrac3.variableCost g.selector c.mantissas) total) (some 0)

/-- The fields of a component. -/
def emitComponent (isFixed : Bool) (c : TonalComponent) : Emission :=
  .concat
    [.field 6 c.scaled.index, .field 6 (c.position % windowLines),
      emitMantissas isFixed g.selector c.mantissas]

/-- The fields of a group. -/
def emit (isFixed : Bool) : Emission :=
  .concat
    [.each (List.range Layout.atrac3.bands) fun band => .flag (g.usesBand band),
      .field 3 (g.length - 1), .field 3 g.selector,
      .each g.windows fun window =>
        let members := inWindow window g.components
        .field 3 members.length ++ .each members (g.emitComponent isFixed)]

end TonalGroup

/-- The tonal components of a sound unit. -/
structure TonalGroups where
  groups : List TonalGroup := []
  /-- Mantissas have words of fixed length. -/
  isFixed : Bool := true
  /-- The number of bits of all fields. -/
  bits : Nat := 5
  deriving Inhabited

namespace TonalGroups

/-- Selector and length, the first deciding. -/
def keyLe (a b : Nat × Nat) : Bool := a.1 < b.1 || (a.1 == b.1 && a.2 ≤ b.2)

/-- What components of one group agree in. -/
def key (c : TonalComponent) : Nat × Nat := (c.selector, c.length)

/-- The keys of components in ascending order. -/
def keys (cs : List TonalComponent) : List (Nat × Nat) := (cs.map key).eraseDups.mergeSort keyLe

/-- A component put at the end of the first of `rows` whose window of it has room, or into a row of
its own. -/
def place (c : TonalComponent) : (rows : List (List TonalComponent)) → List (List TonalComponent)
  | [] => [[c]]
  | row :: rows =>
    if (inWindow c.window row).length < mostPerWindow then (row ++ [c]) :: rows
    else row :: place c rows

/-- The groups of the components with one key. -/
def groupsOf (cs : List TonalComponent) (k : Nat × Nat) : List TonalGroup :=
  let members := (cs.filter (key · == k)).mergeSort fun a b => a.position ≤ b.position
  (members.foldl (fun rows c => place c rows) []).map fun row => ⟨k.1, k.2, row⟩

/-- The groups of all components, as many as there can be. -/
def groupsFor (cs : List TonalComponent) : List TonalGroup :=
  ((keys cs).flatMap (groupsOf cs)).take mostGroups

/-- Groups with the cheaper kind of words. -/
def ofGroups (groups : List TonalGroup) : TonalGroups :=
  if groups.isEmpty then {}
  else
    let fixed := (groups.map (·.fixedCost)).sum
    let other := groups.foldr (fun g total => addCosts g.variableCost total) (some 0)
    let (isFixed, mantissaBits) := chooseWords fixed other
    { groups, isFixed, bits := 5 + 2 + (groups.map (·.sideCost)).sum + mantissaBits }

/-- Components sorted into groups. -/
def build (cs : List TonalComponent) : TonalGroups := ofGroups (groupsFor cs)

/-- Components sorted into groups, if the selector of every group has words of fixed length. -/
def build? (cs : List TonalComponent) : Except Error TonalGroups :=
  if (groupsFor cs).all (hasFixedWords ·.selector) then .ok (build cs) else .error .outOfRange

/-- There are no components. -/
def isEmpty (t : TonalGroups) : Bool := t.groups.isEmpty

/-- All components, group by group. -/
def components (t : TonalGroups) : List TonalComponent := t.groups.flatMap (·.components)

/-- The fields of all groups. -/
def emit (t : TonalGroups) : Emission :=
  .field 5 t.groups.length ++
    if t.isEmpty then .empty else .field 2 t.isFixed.toNat ++ .each t.groups (·.emit t.isFixed)

end TonalGroups

end Atrac3

end SpectralCoding
