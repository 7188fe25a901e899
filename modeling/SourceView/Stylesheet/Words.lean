/-
Words of stylesheets.

No word decides what is a token or a rule, except that the block of some at-rules holds
rules instead of declarations.  All others only choose a style.
-/
import SourceView.Text.Lowercase

namespace SourceView.Stylesheet

/-- At-rules whose block holds rules. -/
def nestingAtRules : List String := [
  "media", "supports", "layer", "container", "document", "scope", "starting-style",
  "keyframes"]

/-- Standard properties. -/
def properties : List String := [
  "accent-color", "align-content", "align-items", "align-self", "all", "animation",
  "animation-delay", "animation-direction", "animation-duration", "animation-fill-mode",
  "animation-iteration-count", "animation-name", "animation-play-state",
  "animation-timing-function", "appearance", "aspect-ratio", "backdrop-filter",
  "backface-visibility", "background", "background-attachment", "background-blend-mode",
  "background-clip", "background-color", "background-image", "background-origin",
  "background-position", "background-repeat", "background-size", "block-size", "border",
  "border-block", "border-bottom", "border-bottom-color", "border-bottom-left-radius",
  "border-bottom-right-radius", "border-bottom-style", "border-bottom-width",
  "border-collapse", "border-color", "border-image", "border-inline", "border-left",
  "border-left-color", "border-left-style", "border-left-width", "border-radius",
  "border-right", "border-right-color", "border-right-style", "border-right-width",
  "border-spacing", "border-style", "border-top", "border-top-color",
  "border-top-left-radius", "border-top-right-radius", "border-top-style", "border-top-width",
  "border-width", "bottom", "box-shadow", "box-sizing", "break-after", "break-before",
  "break-inside", "caption-side", "caret-color", "clear", "clip", "clip-path", "color",
  "color-scheme", "column-count", "column-gap", "column-rule", "column-span", "column-width",
  "columns", "contain", "container", "container-name", "container-type", "content",
  "counter-increment", "counter-reset", "cursor", "direction", "display", "empty-cells",
  "fill", "filter", "flex", "flex-basis", "flex-direction", "flex-flow", "flex-grow",
  "flex-shrink", "flex-wrap", "float", "font", "font-display", "font-family",
  "font-feature-settings", "font-size", "font-stretch", "font-style", "font-variant",
  "font-variation-settings", "font-weight", "gap", "grid", "grid-area", "grid-auto-columns",
  "grid-auto-flow", "grid-auto-rows", "grid-column", "grid-column-end", "grid-column-start",
  "grid-row", "grid-row-end", "grid-row-start", "grid-template", "grid-template-areas",
  "grid-template-columns", "grid-template-rows", "height", "hyphens", "image-rendering",
  "inline-size", "inset", "inset-block", "inset-inline", "isolation", "justify-content",
  "justify-items", "justify-self", "left", "letter-spacing", "line-clamp", "line-height",
  "list-style", "list-style-image", "list-style-position", "list-style-type", "margin",
  "margin-block", "margin-block-end", "margin-block-start", "margin-bottom", "margin-inline",
  "margin-inline-end", "margin-inline-start", "margin-left", "margin-right", "margin-top",
  "mask", "max-block-size", "max-height", "max-inline-size", "max-width", "min-block-size",
  "min-height", "min-inline-size", "min-width", "mix-blend-mode", "object-fit",
  "object-position", "offset", "opacity", "order", "orphans", "outline", "outline-color",
  "outline-offset", "outline-style", "outline-width", "overflow", "overflow-wrap",
  "overflow-x", "overflow-y", "overscroll-behavior", "padding", "padding-block",
  "padding-block-end", "padding-block-start", "padding-bottom", "padding-inline",
  "padding-inline-end", "padding-inline-start", "padding-left", "padding-right",
  "padding-top", "page-break-after", "page-break-before", "perspective", "perspective-origin",
  "place-content", "place-items", "place-self", "pointer-events", "position", "quotes",
  "resize", "right", "rotate", "row-gap", "scale", "scroll-behavior", "scroll-margin",
  "scroll-padding", "scroll-snap-align", "scroll-snap-type", "scrollbar-color",
  "scrollbar-gutter", "scrollbar-width", "shape-outside", "src", "stroke", "stroke-width",
  "tab-size", "table-layout", "text-align", "text-align-last", "text-decoration",
  "text-decoration-color", "text-decoration-line", "text-decoration-style", "text-indent",
  "text-overflow", "text-rendering", "text-shadow", "text-transform", "text-underline-offset",
  "text-wrap", "top", "touch-action", "transform", "transform-origin", "transform-style",
  "transition", "transition-delay", "transition-duration", "transition-property",
  "transition-timing-function", "translate", "unicode-range", "user-select", "vertical-align",
  "view-transition-name", "visibility", "white-space", "widows", "width", "will-change",
  "word-break", "word-spacing", "word-wrap", "writing-mode", "z-index", "zoom"]

/-- Units of dimensions. -/
def units : List String := [
  "%", "em", "ex", "ch", "rem", "lh", "rlh", "vw", "vh", "vmin", "vmax", "vb", "vi", "svw",
  "svh", "lvw", "lvh", "dvw", "dvh", "cqw", "cqh", "cqi", "cqb", "cqmin", "cqmax", "cap",
  "ic", "px", "cm", "mm", "q", "in", "pc", "pt", "s", "ms", "deg", "grad", "rad", "turn",
  "hz", "khz", "dpi", "dpcm", "dppx", "x", "fr"]

/-- Keywords that stand as values. -/
def valueKeywords : List String := [
  "absolute", "auto", "baseline", "block", "bold", "bolder", "border-box", "both", "bottom",
  "break-word", "capitalize", "center", "collapse", "column", "column-reverse", "contain",
  "content-box", "contents", "cover", "dashed", "default", "dotted", "double", "ease",
  "ease-in", "ease-in-out", "ease-out", "ellipsis", "end", "fill", "fixed", "flex",
  "flex-end", "flex-start", "forwards", "grid", "groove", "hidden", "horizontal", "infinite",
  "inherit", "initial", "inline", "inline-block", "inline-flex", "inline-grid", "inset",
  "italic", "justify", "left", "lighter", "linear", "list-item", "lowercase", "manual",
  "max-content", "middle", "min-content", "none", "normal", "nowrap", "outset", "pointer",
  "pre", "pre-line", "pre-wrap", "relative", "repeat", "repeat-x", "repeat-y", "revert",
  "revert-layer", "ridge", "right", "row", "row-reverse", "scroll", "smooth", "solid",
  "space-around", "space-between", "space-evenly", "start", "static", "sticky", "stretch",
  "table", "table-cell", "table-row", "top", "underline", "unset", "uppercase", "vertical",
  "visible", "wrap", "wrap-reverse"]

/-- Names of colors. -/
def colors : List String := [
  "aliceblue", "antiquewhite", "aqua", "aquamarine", "azure", "beige", "bisque", "black",
  "blanchedalmond", "blue", "blueviolet", "brown", "burlywood", "cadetblue", "chartreuse",
  "chocolate", "coral", "cornflowerblue", "cornsilk", "crimson", "currentcolor", "cyan",
  "darkblue", "darkcyan", "darkgoldenrod", "darkgray", "darkgreen", "darkgrey", "darkkhaki",
  "darkmagenta", "darkolivegreen", "darkorange", "darkorchid", "darkred", "darksalmon",
  "darkseagreen", "darkslateblue", "darkslategray", "darkturquoise", "darkviolet", "deeppink",
  "deepskyblue", "dimgray", "dodgerblue", "firebrick", "floralwhite", "forestgreen",
  "fuchsia", "gainsboro", "ghostwhite", "gold", "goldenrod", "gray", "green", "greenyellow",
  "grey", "honeydew", "hotpink", "indianred", "indigo", "ivory", "khaki", "lavender",
  "lavenderblush", "lawngreen", "lemonchiffon", "lightblue", "lightcoral", "lightcyan",
  "lightgray", "lightgreen", "lightgrey", "lightpink", "lightsalmon", "lightseagreen",
  "lightskyblue", "lightslategray", "lightsteelblue", "lightyellow", "lime", "limegreen",
  "linen", "magenta", "maroon", "mediumaquamarine", "mediumblue", "mediumorchid",
  "mediumpurple", "mediumseagreen", "mediumslateblue", "mediumspringgreen", "mediumturquoise",
  "mediumvioletred", "midnightblue", "mintcream", "mistyrose", "moccasin", "navajowhite",
  "navy", "oldlace", "olive", "olivedrab", "orange", "orangered", "orchid", "palegoldenrod",
  "palegreen", "paleturquoise", "palevioletred", "papayawhip", "peachpuff", "peru", "pink",
  "plum", "powderblue", "purple", "rebeccapurple", "red", "rosybrown", "royalblue",
  "saddlebrown", "salmon", "sandybrown", "seagreen", "seashell", "sienna", "silver",
  "skyblue", "slateblue", "slategray", "snow", "springgreen", "steelblue", "tan", "teal",
  "thistle", "tomato", "transparent", "turquoise", "violet", "wheat", "white", "whitesmoke",
  "yellow", "yellowgreen"]

/-- Words that join the parts of a media query. -/
def mediaKeywords : List String := [
  "all", "and", "not", "only", "or", "print", "screen", "speech"]

/-- Features that a media query may ask for. -/
def mediaFeatures : List String := [
  "any-hover", "any-pointer", "aspect-ratio", "color", "color-gamut", "display-mode",
  "forced-colors", "height", "hover", "inverted-colors", "max-aspect-ratio", "max-height",
  "max-resolution", "max-width", "min-aspect-ratio", "min-height", "min-resolution",
  "min-width", "orientation", "pointer", "prefers-color-scheme", "prefers-contrast",
  "prefers-reduced-motion", "prefers-reduced-transparency", "resolution", "scripting",
  "update", "width"]

/-- Pseudo-classes and pseudo-elements. -/
def pseudoClasses : List String := [
  "active", "after", "any-link", "backdrop", "before", "checked", "default", "defined",
  "disabled", "empty", "enabled", "first", "first-child", "first-letter", "first-line",
  "first-of-type", "focus", "focus-visible", "focus-within", "fullscreen", "has", "host",
  "hover", "in-range", "indeterminate", "invalid", "is", "last-child", "last-of-type", "left",
  "link", "marker", "not", "nth-child", "nth-last-child", "nth-last-of-type", "nth-of-type",
  "only-child", "only-of-type", "optional", "out-of-range", "part", "placeholder",
  "placeholder-shown", "read-only", "read-write", "required", "right", "root", "scope",
  "selection", "slotted", "target", "valid", "visited", "where"]

/-- What a property of one vendor begins with. -/
def vendorStems : List String := [
  "-webkit-", "-moz-", "-ms-", "-o-"]

/-- Whether `name`, in any case, is a standard property or one of a vendor. -/
def isKnownProperty (name : String) : Bool :=
  let lowered := Text.lower name
  properties.contains lowered
    || vendorStems.any fun stem => stem.toList.isPrefixOf lowered.toList

end SourceView.Stylesheet
