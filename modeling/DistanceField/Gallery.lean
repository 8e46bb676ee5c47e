import DistanceField.Shapes

/-! Scenes that come with the library. -/

namespace DistanceField

/-- A scene: the objects to register, of which the last is the root. -/
structure Scene where
  name : String
  description : String
  parts : List Definition
  root : Definition

/-- All objects of a scene, in the order in which they are registered. -/
def Scene.definitions (scene : Scene) : List Definition :=
  scene.parts ++ [scene.root]

namespace Gallery

instance : OfNat Expr n := ⟨.number (.ofInt n)⟩

instance : OfScientific Expr where
  ofScientific mantissa negativeExponent exponent :=
    .number (OfScientific.ofScientific mantissa negativeExponent exponent)

instance : Coe Call Expr := ⟨.call⟩

def int (n : Int) : Expr :=
  .number (.ofInt n)

def vec2 (x y : Expr) : Expr :=
  .vector [x, y]

def vec3 (x y z : Expr) : Expr :=
  .vector [x, y, z]

/-- An object with fixed statements and no parameters. -/
def object (name : String) (steps : List BuildStep) : Definition where
  name := name
  category := .object
  params := []
  returns := none
  body := .recipe ⟨fun _ => steps⟩
  declared := ∅

/-- Adds a distance to the result by a combinator. -/
def combine (combinator : Handle) (call : Call) : BuildStep :=
  .accumulate combinator [.call call]

open Shapes

def basic : Scene where
  name := "basic"
  description := "A single sphere"
  parts := []
  root := object "Basic" [combine union (sphere.call [2])]

def ring : Scene where
  name := "torus"
  description := "A torus in the xy plane"
  parts := []
  root := object "Scene" [combine union (torus.call [vec2 2 0.75])]

/-- Holes along the three axes. -/
def holes (size : Expr) : List BuildStep :=
  [cylinderX, cylinderY, cylinderZ].map fun cylinder => combine subtract (cylinder.call [size])

/-- A rounded box with a hole along each axis. -/
def drilledBox : Definition :=
  object "MyObject"
    (combine union (box.call [vec3 1 1 1]) :: combine intersect (sphere.call [1.3]) ::
      holes (vec2 0.5 2))

def grid : Scene where
  name := "object"
  description := "A grid of drilled rounded boxes built from one object"
  parts := [drilledBox]
  root := object "MyScene"
    (([-1, 0, 1] : List Int).flatMap fun i => ([-1, 0, 1] : List Int).map fun j =>
      combine union ((drilledBox.handle.call []).placeAt (vec3 (int (2 * i)) (int (2 * j)) 0)))

/-- A slab and a ball, to be combined with a smooth seam. -/
def seam : List Expr :=
  [box.call [vec3 1.4 0.6 1.4], (sphere.call [1]).placeAt (vec3 0 0.7 0), 0.5]

def smooth : Scene where
  name := "smooth"
  description := "Smooth union, subtraction and intersection side by side"
  parts := []
  root := object "MyScene"
    [.transform translate [vec3 (int (-3)) 0 0],
      combine union (smoothUnion.call seam),
      .transform translate [vec3 3 0 0],
      combine union (smoothSubtract.call seam),
      .transform translate [vec3 3 0 0],
      combine union (smoothIntersect.call seam)]

def mirrored : Scene where
  name := "mirror"
  description := "Spheres reflected into every octant"
  parts := []
  root := object "MyObject"
    (.transform mirror [] :: [vec3 0.5 1 0.5, vec3 1.1 0 0.5].map fun location =>
      combine union ((sphere.call [1]).placeAt location))

def infinite : Scene where
  name := "infinite"
  description := "A drilled box repeated through all of space"
  parts := [drilledBox]
  root := object "Infinite"
    [.transform repeated [vec3 4.5 4.5 4.5], combine union (drilledBox.handle.call [])]

/-- A rounded box without a cross along the axes, as a single call. -/
def crossCut : Call :=
  let beam := vec2 0.5 2
  let cross := union.call
    [cylinderX.call [beam], union.call [cylinderY.call [beam], cylinderZ.call [beam]]]
  let roundedBox := intersect.call [box.call [vec3 1 1 1], sphere.call [1.3]]
  subtract.call [roundedBox, cross]

def placed : Scene where
  name := "combinator"
  description := "One combinator tree placed at several positions"
  parts := []
  root := object "MyScene"
    ([vec3 1 1 1, vec3 1 2 1.5, vec3 2 1.5 1].map fun location =>
      combine union (crossCut.placeAt location))

def breathingBox : Definition :=
  object "MyObject"
    (combine union (box.call [vec3 1.8 1.8 1.8]) :: combine intersect (sphere.call [2.4]) ::
      holes (vec2 (.var "(1.8 - 0.5) * (0.5 + 0.5 * sin(1.7 * iTime)) + 0.6") 2))

def orbitingBalls : Definition :=
  let radius : Expr := .var "0.4 + 1.0 + sin(1.7 * iTime)"
  object "Balls"
    (.transform mirror [] :: [vec3 radius 0 0, vec3 0 radius 0, vec3 0 0 radius].map fun location =>
      combine union ((sphere.call [0.5]).placeAt location))

def animated : Scene where
  name := "animated"
  description := "A breathing drilled box with orbiting spheres (uses iTime)"
  parts := [breathingBox, orbitingBalls]
  root := object "Scene"
    [combine union (breathingBox.handle.call []), combine union (orbitingBalls.handle.call [])]

def scenes : List Scene :=
  [basic, ring, grid, smooth, mirrored, infinite, placed, animated]

def find? (name : String) : Option Scene :=
  scenes.find? fun scene => scene.name == name

end Gallery

end DistanceField
