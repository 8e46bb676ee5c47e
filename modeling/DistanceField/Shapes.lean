import DistanceField.Registry

/-! The stock of shapes, combinators and operators that scenes are made of. -/

namespace DistanceField.Shapes

/-- A definition whose body is a few lines of shader text. -/
def define (category : Category) (name : String) (params : List Param) (body : List String) :
    Definition where
  name := name
  category := category
  params := params
  returns := none
  body := .template ("\n".intercalate body)
  declared := ∅

def primitive (name : String) (params : List Param) (body : List String) : Definition :=
  define .primitive name (⟨"p", .vec3⟩ :: params) body

def operator (name : String) (params : List Param) (body : List String) : Definition :=
  define .operator name (⟨"p", .vec3⟩ :: params) body

def combinator (name : String) (params : List Param) (body : List String) : Definition :=
  define .combinator name (⟨"d1", .float⟩ :: ⟨"d2", .float⟩ :: params) body

/-- The distance to an upright cylinder: `h.x` is its radius, `h.y` half its length. -/
def cappedCylinder : Definition :=
  { define .function "CappedCylinder" [⟨"p", .vec3⟩, ⟨"h", .vec2⟩]
      ["vec2 d = abs(vec2(length(p.xz), p.y)) - h;",
        "return min(max(d.x, d.y), 0.0) + length(max(d, 0.0));"] with
    returns := some .float }

/-- A cylinder along another axis, by an exchange of coordinates. -/
def cylinder (name coordinates : String) : Definition :=
  { primitive name [⟨"h", .vec2⟩]
      ["return " ++ cappedCylinder.name ++ "(p." ++ coordinates ++ ", h);"] with
    declared := .ofList [cappedCylinder.name] }

/-- The stock, in the order in which it is registered. -/
def stock : List Definition :=
  [cappedCylinder,
    primitive "Plane" [] ["return p.y;"],
    primitive "Sphere" [⟨"r", .float⟩] ["return length(p) - r;"],
    primitive "Box" [⟨"b", .vec3⟩]
      ["vec3 d = abs(p) - b;",
        "return min(max(d.x, max(d.y, d.z)), 0.0) + length(max(d, 0.0));"],
    primitive "Torus" [⟨"t", .vec2⟩]
      ["vec2 q = vec2(length(p.xy) - t.x, p.z);",
        "return length(q) - t.y;"],
    cylinder "CylinderX" "yxz",
    cylinder "CylinderY" "xyz",
    cylinder "CylinderZ" "xzy",
    combinator "Union" [] ["return min(d1, d2);"],
    combinator "Intersect" [] ["return max(d1, d2);"],
    combinator "Subtract" [] ["return max(d1, -d2);"],
    combinator "SmoothUnion" [⟨"k", .float⟩]
      ["float h = clamp(0.5 + 0.5 * (d2 - d1) / k, 0.0, 1.0);",
        "return mix(d2, d1, h) - k * h * (1.0 - h);"],
    combinator "SmoothIntersect" [⟨"k", .float⟩]
      ["float h = clamp(0.5 - 0.5 * (d2 - d1) / k, 0.0, 1.0);",
        "return mix(d2, d1, h) + k * h * (1.0 - h);"],
    combinator "SmoothSubtract" [⟨"k", .float⟩]
      ["float h = clamp(0.5 - 0.5 * (d1 + d2) / k, 0.0, 1.0);",
        "return mix(d1, -d2, h) + k * h * (1.0 - h);"],
    operator translateName [⟨"t", .vec3⟩] ["return p - t;"],
    operator "Repeat" [⟨"c", .vec3⟩] ["return mod(p + 0.5 * c, c) - 0.5 * c;"],
    operator "Mirror" [] ["return abs(p);"]]

/-! Calls of the stock. -/

def sphere : Handle := ⟨"Sphere", .primitive⟩

def box : Handle := ⟨"Box", .primitive⟩

def torus : Handle := ⟨"Torus", .primitive⟩

def cylinderX : Handle := ⟨"CylinderX", .primitive⟩

def cylinderY : Handle := ⟨"CylinderY", .primitive⟩

def cylinderZ : Handle := ⟨"CylinderZ", .primitive⟩

def union : Handle := ⟨"Union", .combinator⟩

def intersect : Handle := ⟨"Intersect", .combinator⟩

def subtract : Handle := ⟨"Subtract", .combinator⟩

def smoothUnion : Handle := ⟨"SmoothUnion", .combinator⟩

def smoothIntersect : Handle := ⟨"SmoothIntersect", .combinator⟩

def smoothSubtract : Handle := ⟨"SmoothSubtract", .combinator⟩

def translate : Handle := ⟨translateName, .operator⟩

def repeated : Handle := ⟨"Repeat", .operator⟩

def mirror : Handle := ⟨"Mirror", .operator⟩

end DistanceField.Shapes
