/-
# The built-in templates

Nineteen surfaces that are always at hand.  Each has a body, either expressions for components or
hand-written text, and starts from no other template.  Their colours are numbers of thirty-two
bits, their other numbers are of sixty-four.

Component `fabric`: `builtin_templates`, `builtin`, `builtin_names`.
-/
import ShaderFabric.Template.Basic

namespace ShaderFabric

namespace Template

/-! ## 1. Parts -/

/-- The number `digits` with `places` of them behind the point. -/
def decimal (digits places : Nat) : Literal := .number (Double.ofDecimal false digits (-places))

/-- A colour in thousandths. -/
def shade (red green blue alpha : Nat) : Literal :=
  .sequence ([red, green, blue, alpha].map fun n => (Single.ofDecimal false n (-3)).toDouble)

/-- A vector of two numbers in tenths. -/
def pair (x y : Nat) : Literal :=
  .xy (Double.ofDecimal false x (-1)) (Double.ofDecimal false y (-1))

/-- The neutral image. -/
def neutral : Literal := .text neutralImage

/-- A fabric with some uniforms. -/
def withUniforms (uniforms : List (String × Literal)) : Fabric :=
  { Fabric.empty with uniforms := Table.ofList uniforms }

/-- A surface function with these lines between its first and its last statement. -/
def surface (lines : List String) : String :=
  "fabric_material fabric_getMaterial(fabric_materialInput materialInput)\n\x7b\n"
    ++ "    fabric_material material = fabric_getDefaultMaterial(materialInput);\n"
    ++ String.join (lines.map fun line => "    " ++ line ++ "\n")
    ++ "    return material;\n\x7d\n"

/-- The repeated lookup of some channels of the image. -/
def lookup (channels : String) : String :=
  "texture(image, fract(repeat * materialInput.st))." ++ channels

/-- A map that assigns one component from some channels of an image. -/
def imageMap (name uniform channels component : String) (translucency : Translucency) :
    Template where
  name := name
  fabric := (withUniforms
    [("image", neutral), (uniform, .text channels), ("repeat", pair 10 10)]).withComponent
      component (lookup uniform)
  translucency := translucency

/-- A template with a hand-written body. -/
def written (name : String) (uniforms : List (String × Literal)) (lines : List String)
    (translucency : Translucency) : Template where
  name := name
  fabric := (withUniforms uniforms).withSource (surface lines)
  translucency := translucency

/-! ## 2. Flat colours and images -/

def color : Template where
  name := "Color"
  fabric := ((withUniforms [("color", shade 1000 0 0 500)]).withComponent
    "diffuse" "color.rgb").withComponent "alpha" "color.a"
  translucency := .alphaOf ["color"]

def image : Template where
  name := "Image"
  fabric := ((withUniforms
    [("image", neutral), ("repeat", pair 10 10), ("color", shade 1000 1000 1000 1000)]).withComponent
      "diffuse" (lookup "rgb" ++ " * color.rgb")).withComponent "alpha" (lookup "a" ++ " * color.a")
  translucency := .alphaOf ["color"]

def diffuseMap : Template := imageMap "DiffuseMap" "channels" "rgb" "diffuse" .never

def alphaMap : Template := imageMap "AlphaMap" "channel" "a" "alpha" .always

def specularMap : Template := imageMap "SpecularMap" "channel" "r" "specular" .never

def emissionMap : Template := imageMap "EmissionMap" "channels" "rgb" "emission" .never

/-! ## 3. Surface detail -/

def bumpMap : Template := written "BumpMap"
  [("image", neutral),
    ("channel", .text "r"),
    ("strength", decimal 8 1),
    ("repeat", pair 10 10)]
  [
    "vec2 st = materialInput.st;",
    "float delta = 1.0 / 256.0;",
    "float centerBump = texture(image, fract(repeat * st)).channel;",
    "float rightBump = texture(image, fract(repeat * (st + vec2(delta, 0.0)))).channel;",
    "float topBump = texture(image, fract(repeat * (st + vec2(0.0, delta)))).channel;",
    "vec3 normalTangentSpace = normalize(vec3(centerBump - rightBump, centerBump - topBump, clamp(1.0 - strength, 0.1, 1.0)));",
    "material.normal = normalize(materialInput.tangentToEyeMatrix * normalTangentSpace);",
    "material.diffuse = vec3(0.01);"]
  .never

def normalMap : Template := written "NormalMap"
  [("image", neutral),
    ("channels", .text "rgb"),
    ("strength", decimal 8 1),
    ("repeat", pair 10 10)]
  [
    "vec4 texel = texture(image, fract(repeat * materialInput.st));",
    "vec3 normalTangentSpace = texel.channels;",
    "normalTangentSpace.xy = normalTangentSpace.xy * 2.0 - 1.0;",
    "normalTangentSpace.z = clamp(1.0 - strength, 0.1, 1.0);",
    "normalTangentSpace = normalize(normalTangentSpace);",
    "material.normal = normalize(materialInput.tangentToEyeMatrix * normalTangentSpace);"]
  .never

/-! ## 4. Patterns -/

def grid : Template := written "Grid"
  [("color", shade 0 1000 0 1000),
    ("cellAlpha", decimal 1 1),
    ("lineCount", pair 80 80),
    ("lineThickness", pair 10 10),
    ("lineOffset", pair 0 0)]
  [
    "vec2 st = materialInput.st;",
    "vec2 cell = fract(lineCount * st - lineOffset);",
    "vec2 distanceToLine = abs(cell - floor(cell + 0.5));",
    "vec2 threshold = lineThickness * 0.02;",
    "float onLine = max(1.0 - step(threshold.x, distanceToLine.x), 1.0 - step(threshold.y, distanceToLine.y));",
    "material.diffuse = color.rgb;",
    "material.alpha = color.a * mix(cellAlpha, 1.0, onLine);"]
  (.alphaOf ["color", "cellAlpha"])

def stripe : Template := written "Stripe"
  [("horizontal", .bool true),
    ("evenColor", shade 1000 1000 1000 500),
    ("oddColor", shade 0 0 1000 500),
    ("offset", decimal 0 0),
    ("repeat", decimal 5 0)]
  [
    "float coord = mix(materialInput.st.s, materialInput.st.t, float(horizontal));",
    "float value = fract((coord - offset) * (repeat * 0.5));",
    "vec4 currentColor = mix(evenColor, oddColor, step(0.5, value));",
    "material.diffuse = currentColor.rgb;",
    "material.alpha = currentColor.a;"]
  (.alphaOf ["evenColor", "oddColor"])

def checkerboard : Template := written "Checkerboard"
  [("lightColor", shade 1000 1000 1000 500),
    ("darkColor", shade 0 0 0 500),
    ("repeat", pair 50 50)]
  [
    "vec2 st = materialInput.st;",
    "float b = mod(floor(repeat.s * st.s) + floor(repeat.t * st.t), 2.0);",
    "vec4 currentColor = mix(lightColor, darkColor, b);",
    "material.diffuse = currentColor.rgb;",
    "material.alpha = currentColor.a;"]
  (.alphaOf ["lightColor", "darkColor"])

def dot : Template := written "Dot"
  [("lightColor", shade 1000 1000 0 750),
    ("darkColor", shade 0 1000 1000 750),
    ("repeat", pair 50 50)]
  [
    "float b = smoothstep(0.3, 0.32, length(fract(repeat * materialInput.st) - 0.5));",
    "vec4 currentColor = mix(lightColor, darkColor, b);",
    "material.diffuse = currentColor.rgb;",
    "material.alpha = currentColor.a;"]
  (.alphaOf ["lightColor", "darkColor"])

/-! ## 5. Effects -/

def water : Template := written "Water"
  [("baseWaterColor", shade 200 300 600 1000),
    ("blendColor", shade 0 1000 699 1000),
    ("specularMap", neutral),
    ("normalMap", neutral),
    ("frequency", decimal 10 0),
    ("animationSpeed", decimal 1 2),
    ("amplitude", decimal 1 0),
    ("specularIntensity", decimal 5 1),
    ("fadeFactor", decimal 1 0)]
  [
    "float waveTime = fabric_frameNumber * animationSpeed;",
    "float fade = max(1.0, length(materialInput.positionToEyeEC) * fadeFactor);",
    "float specularMapValue = texture(specularMap, materialInput.st).r;",
    "vec2 waveSt = materialInput.st * frequency + vec2(sin(waveTime), cos(waveTime)) * 0.1;",
    "vec3 normalTangentSpace = texture(normalMap, fract(waveSt)).rgb * 2.0 - 1.0;",
    "normalTangentSpace.xy *= amplitude / fade;",
    "normalTangentSpace = mix(vec3(0.0, 0.0, 50.0), normalTangentSpace, specularMapValue);",
    "normalTangentSpace = normalize(normalTangentSpace);",
    "float perturbation = clamp(dot(normalTangentSpace, vec3(0.0, 0.0, 1.0)), 0.0, 1.0);",
    "material.alpha = mix(blendColor.a, baseWaterColor.a, specularMapValue) * specularMapValue;",
    "material.diffuse = mix(blendColor.rgb, baseWaterColor.rgb, specularMapValue) + 0.1 * perturbation;",
    "material.normal = normalize(materialInput.tangentToEyeMatrix * normalTangentSpace);",
    "material.specular = specularIntensity;",
    "material.shininess = 10.0;"]
  (.alphaOf ["baseWaterColor", "blendColor"])

def rimLighting : Template := written "RimLighting"
  [("color", shade 1000 0 0 700),
    ("rimColor", shade 1000 1000 1000 400),
    ("width", decimal 3 1)]
  [
    "float d = 1.0 - dot(materialInput.normalEC, normalize(materialInput.positionToEyeEC));",
    "float rim = smoothstep(1.0 - width, 1.0, d);",
    "material.diffuse = color.rgb;",
    "material.emission = rimColor.rgb * rim;",
    "material.alpha = mix(color.a, rimColor.a, rim);"]
  (.alphaOf ["color", "rimColor"])

def fade : Template := written "Fade"
  [("fadeInColor", shade 1000 0 0 1000),
    ("fadeOutColor", shade 0 0 0 0),
    ("maximumDistance", decimal 5 1),
    ("repeat", .bool true),
    ("fadeDirection", pair 10 10),
    ("time", pair 5 5)]
  [
    "vec2 st = materialInput.st;",
    "vec2 dist = abs(time - st);",
    "if (repeat) \x7b",
    "    dist = min(dist, min(abs(time - (st + 1.0)), abs(time - (st - 1.0))));",
    "\x7d",
    "vec2 fadeAmount = clamp(dist / maximumDistance, 0.0, 1.0) * fadeDirection;",
    "vec4 currentColor = mix(fadeInColor, fadeOutColor, clamp(length(fadeAmount), 0.0, 1.0));",
    "material.diffuse = currentColor.rgb;",
    "material.alpha = currentColor.a;"]
  (.alphaOf ["fadeInColor", "fadeOutColor"])

/-! ## 6. Lines -/

def polylineArrow : Template := written "PolylineArrow"
  [("color", shade 1000 1000 1000 1000)]
  [
    "vec2 st = materialInput.st;",
    "float across = abs(st.t - 0.5);",
    "float shaft = step(across, 0.15) * step(st.s, 0.75);",
    "float head = step(0.75, st.s) * step(across, (1.0 - st.s) * 2.0);",
    "material.diffuse = color.rgb;",
    "material.alpha = color.a * max(shaft, head);"]
  .always

def polylineDash : Template := written "PolylineDash"
  [("color", shade 1000 1000 0 1000),
    ("gapColor", shade 0 0 0 0),
    ("dashLength", decimal 16 0),
    ("dashPattern", decimal 255 0)]
  [
    "float dashPosition = fract(materialInput.s * 256.0 / dashLength);",
    "float maskIndex = floor(dashPosition * 16.0);",
    "float maskTest = floor(dashPattern / pow(2.0, maskIndex));",
    "vec4 currentColor = mod(maskTest, 2.0) < 1.0 ? gapColor : color;",
    "material.diffuse = currentColor.rgb;",
    "material.alpha = currentColor.a;"]
  (.alphaOf ["color", "gapColor"])

def polylineGlow : Template := written "PolylineGlow"
  [("color", shade 0 500 1000 1000),
    ("glowPower", decimal 25 2),
    ("taperPower", decimal 1 0)]
  [
    "vec2 st = materialInput.st;",
    "float glow = glowPower / max(abs(st.t - 0.5), 0.0001) - (glowPower / 0.5);",
    "if (taperPower <= 0.99999) \x7b",
    "    glow *= min(1.0, taperPower / max(0.5 - st.s * 0.5, 0.0001) - (taperPower / 0.5));",
    "\x7d",
    "material.diffuse = max(vec3(glow - 1.0) + color.rgb, color.rgb);",
    "material.alpha = clamp(glow, 0.0, 1.0) * color.a;"]
  .always

def polylineOutline : Template := written "PolylineOutline"
  [("color", shade 1000 1000 1000 1000),
    ("outlineColor", shade 1000 0 0 1000),
    ("outlineWidth", decimal 1 0)]
  [
    "float halfInteriorWidth = 0.5 * (1.0 - clamp(outlineWidth * 0.1, 0.0, 1.0));",
    "float inside = step(0.5 - halfInteriorWidth, materialInput.st.t) * step(materialInput.st.t, 0.5 + halfInteriorWidth);",
    "vec4 currentColor = mix(outlineColor, color, inside);",
    "material.diffuse = currentColor.rgb;",
    "material.alpha = currentColor.a;"]
  (.alphaOf ["color", "outlineColor"])

/-! ## 7. The table -/

/-- The built-in templates by name. -/
def builtins : Table Template :=
  Table.ofList ([color, image, diffuseMap, alphaMap, specularMap, emissionMap, bumpMap, normalMap, grid,
    stripe, checkerboard, dot, water, rimLighting, fade, polylineArrow, polylineDash, polylineGlow,
    polylineOutline].map fun template => (template.name, template))

end Template

end ShaderFabric
