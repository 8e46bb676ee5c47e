import DistanceField.Text.Lines

/-! The text of the ray marcher that scenes are compiled into by default. -/

namespace DistanceField.Template

def baseLines : List String :=
  [
    "#version 330 core",
    "",
    "// Sphere-tracing fragment shader. The compiler fills in the two marked",
    "// sections: configuration macros plus `DE(p)`, then every function the scene",
    "// uses.",
    "",
    "uniform vec2 iResolution;",
    "uniform float iTime;",
    "uniform vec2 iMouse;",
    "",
    "out vec4 fragColor;",
    "",
    "// [macros]",
    "",
    "// [functions]",
    "",
    "float march(vec3 ro, vec3 rd)",
    "\x7b",
    "    float t = 0.0;",
    "    for (int i = 0; i < MAX_STEPS; i++) \x7b",
    "        float d = DE(ro + rd * t);",
    "        if (d < MIN_DISTANCE) \x7b",
    "            return t;",
    "        \x7d",
    "        t += d;",
    "        if (t > MAX_DISTANCE) \x7b",
    "            break;",
    "        \x7d",
    "    \x7d",
    "    return -1.0;",
    "\x7d",
    "",
    "vec3 calcNormal(vec3 p)",
    "\x7b",
    "    vec2 e = vec2(MIN_DISTANCE, 0.0);",
    "    return normalize(vec3(",
    "        DE(p + e.xyy) - DE(p - e.xyy),",
    "        DE(p + e.yxy) - DE(p - e.yxy),",
    "        DE(p + e.yyx) - DE(p - e.yyx)));",
    "\x7d",
    "",
    "float softShadow(vec3 ro, vec3 rd, float tmax)",
    "\x7b",
    "    float res = 1.0;",
    "    float t = 0.02;",
    "    for (int i = 0; i < 64 && t < tmax; i++) \x7b",
    "        float h = DE(ro + rd * t);",
    "        if (h < MIN_DISTANCE) \x7b",
    "            return 0.0;",
    "        \x7d",
    "        res = min(res, 8.0 * h / t);",
    "        t += clamp(h, 0.01, 0.5);",
    "    \x7d",
    "    return clamp(res, 0.0, 1.0);",
    "\x7d",
    "",
    "float ambientOcclusion(vec3 p, vec3 n)",
    "\x7b",
    "    float occ = 0.0;",
    "    float scale = 1.0;",
    "    for (int i = 1; i <= 5; i++) \x7b",
    "        float h = 0.02 + 0.12 * float(i);",
    "        occ += (h - DE(p + n * h)) * scale;",
    "        scale *= 0.9;",
    "    \x7d",
    "    return clamp(1.0 - 3.0 * occ, 0.0, 1.0);",
    "\x7d",
    "",
    "mat3 lookAt(vec3 ro, vec3 ta)",
    "\x7b",
    "    vec3 forward = normalize(ta - ro);",
    "    vec3 right = normalize(cross(forward, vec3(0.0, 1.0, 0.0)));",
    "    vec3 up = cross(right, forward);",
    "    return mat3(right, up, forward);",
    "\x7d",
    "",
    "vec3 shade(vec3 ro, vec3 rd)",
    "\x7b",
    "    float t = march(ro, rd);",
    "    if (t < 0.0) \x7b",
    "        return BACKGROUND;",
    "    \x7d",
    "",
    "    vec3 p = ro + rd * t;",
    "    vec3 n = calcNormal(p);",
    "    vec3 toLight = LIGHT_POS - p;",
    "    vec3 l = normalize(toLight);",
    "",
    "    float diffuse = clamp(dot(n, l), 0.0, 1.0);",
    "    diffuse *= softShadow(p + n * 2.0 * MIN_DISTANCE, l, length(toLight));",
    "    float specular = pow(clamp(dot(reflect(-l, n), -rd), 0.0, 1.0), 32.0);",
    "    float ambient = 0.15 * ambientOcclusion(p, n);",
    "",
    "    vec3 color = MATERIAL * (ambient + diffuse) + 0.3 * specular * diffuse;",
    "    float fog = 1.0 - exp(-0.0005 * t * t * t);",
    "    return mix(color, BACKGROUND, fog);",
    "\x7d",
    "",
    "void main()",
    "\x7b",
    "    mat3 camera = lookAt(CAMERA_ORIGIN, CAMERA_TARGET);",
    "    vec3 total = vec3(0.0);",
    "",
    "    for (int m = 0; m < ANTIALIAS; m++) \x7b",
    "        for (int n = 0; n < ANTIALIAS; n++) \x7b",
    "            vec2 jitter = vec2(float(m), float(n)) / float(ANTIALIAS) - 0.5;",
    "            vec2 uv = (2.0 * (gl_FragCoord.xy + jitter) - iResolution) / iResolution.y;",
    "            vec3 rd = camera * normalize(vec3(uv, 2.0));",
    "            total += shade(CAMERA_ORIGIN, rd);",
    "        \x7d",
    "    \x7d",
    "",
    "    vec3 color = total / float(ANTIALIAS * ANTIALIAS);",
    "    fragColor = vec4(pow(color, vec3(0.4545)), 1.0);",
    "\x7d",
    ""
  ]

def baseText : List Char :=
  Text.joinLines (baseLines.map String.toList)

end DistanceField.Template
