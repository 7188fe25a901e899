/-
Words of markup.

Unknown names are tokens and elements like any other.  The words here choose styles, say
which elements never have content, which hold raw text, and which end without an end tag.
-/
import SourceView.Text.Lowercase

namespace SourceView.Markup

/-- Names of standard elements. -/
def knownTags : List String := [
  "a", "abbr", "address", "area", "article", "aside", "audio", "b", "base", "bdi", "bdo",
  "blockquote", "body", "br", "button", "canvas", "caption", "cite", "code", "col",
  "colgroup", "data", "datalist", "dd", "del", "details", "dfn", "dialog", "div", "dl", "dt",
  "em", "embed", "fieldset", "figcaption", "figure", "footer", "form", "h1", "h2", "h3", "h4",
  "h5", "h6", "head", "header", "hgroup", "hr", "html", "i", "iframe", "img", "input", "ins",
  "kbd", "label", "legend", "li", "link", "main", "map", "mark", "menu", "meta", "meter",
  "nav", "noscript", "object", "ol", "optgroup", "option", "output", "p", "param", "picture",
  "pre", "progress", "q", "rp", "rt", "ruby", "s", "samp", "script", "search", "section",
  "select", "slot", "small", "source", "span", "strong", "style", "sub", "summary", "sup",
  "svg", "table", "tbody", "td", "template", "textarea", "tfoot", "th", "thead", "time",
  "title", "tr", "track", "u", "ul", "var", "video", "wbr", "circle", "clippath", "defs",
  "ellipse", "g", "line", "lineargradient", "mask", "math", "path", "pattern", "polygon",
  "polyline", "radialgradient", "rect", "stop", "symbol", "text", "tspan", "use"]

/-- Elements that have neither content nor an end tag. -/
def voidElements : List String := [
  "area", "base", "br", "col", "embed", "hr", "img", "input", "link", "meta", "param",
  "source", "track", "wbr"]

/-- Elements whose content is raw text, up to the matching end tag. -/
def rawTextElements : List String := [
  "script", "style", "textarea", "title"]

/-- The language of the raw text of an element, where it has one. -/
def embeddedLanguage : String → String
  | "script" => "js"
  | "style" => "css"
  | _ => ""

/-- Values of the type attribute that leave the body of a script element a script. -/
def scriptTypes : List String := [
  "", "module", "text/javascript", "application/javascript", "application/ecmascript",
  "text/ecmascript", "text/babel", "text/jsx"]

/-- Standard attributes. -/
def attributes : List String := [
  "accept", "accept-charset", "accesskey", "action", "align", "allow", "alt", "as", "async",
  "autocapitalize", "autocomplete", "autofocus", "autoplay", "background", "bgcolor",
  "border", "capture", "charset", "checked", "cite", "class", "cols", "colspan", "content",
  "contenteditable", "controls", "coords", "crossorigin", "d", "data", "datetime", "decoding",
  "default", "defer", "dir", "dirname", "disabled", "download", "draggable", "enctype",
  "enterkeyhint", "fill", "for", "form", "formaction", "formenctype", "formmethod",
  "formnovalidate", "formtarget", "headers", "height", "hidden", "high", "href", "hreflang",
  "http-equiv", "id", "inert", "integrity", "inputmode", "is", "ismap", "itemid", "itemprop",
  "itemref", "itemscope", "itemtype", "kind", "label", "lang", "list", "loading", "loop",
  "low", "manifest", "max", "maxlength", "media", "method", "min", "minlength", "multiple",
  "muted", "name", "nomodule", "nonce", "novalidate", "open", "optimum", "pattern", "ping",
  "placeholder", "playsinline", "popover", "popovertarget", "poster", "preload", "readonly",
  "referrerpolicy", "rel", "required", "reversed", "role", "rows", "rowspan", "sandbox",
  "scope", "selected", "shape", "size", "sizes", "slot", "span", "spellcheck", "src",
  "srcdoc", "srclang", "srcset", "start", "step", "stroke", "style", "tabindex", "target",
  "title", "translate", "type", "usemap", "value", "viewbox", "width", "wrap", "xmlns"]

/-- What a further attribute may begin with to be known. -/
def attributeStems : List String := [
  "data-", "aria-", "on", "xml:", "xlink:"]

/-- Named character references, without their marks. -/
def entities : List String := [
  "amp", "lt", "gt", "quot", "apos", "nbsp", "ensp", "emsp", "thinsp", "zwnj", "zwj", "shy",
  "copy", "reg", "trade", "bull", "euro", "sect", "para", "cent", "pound", "yen", "deg",
  "prime", "Prime", "frasl", "middot", "iexcl", "iquest", "curren", "brvbar", "uml", "ordf",
  "ordm", "not", "macr", "acute", "micro", "cedil", "sup1", "sup2", "sup3", "frac14",
  "frac12", "frac34", "dagger", "Dagger", "permil", "larr", "rarr", "uarr", "darr", "harr",
  "lArr", "rArr", "uArr", "dArr", "hArr", "check", "star", "plus", "minus", "times", "divide",
  "plusmn", "ne", "le", "ge", "sum", "prod", "infin", "part", "nabla", "isin", "notin",
  "cong", "asymp", "equiv", "forall", "exist", "sub", "sup", "cap", "cup", "and", "or",
  "oplus", "otimes", "radic", "prop", "ang", "int", "there4", "sim", "lowast", "sdot",
  "empty", "lceil", "rceil", "lfloor", "rfloor", "alpha", "beta", "gamma", "delta", "epsilon",
  "zeta", "eta", "theta", "iota", "kappa", "lambda", "mu", "nu", "xi", "omicron", "pi", "rho",
  "sigmaf", "sigma", "tau", "upsilon", "phi", "chi", "psi", "omega", "Alpha", "Beta", "Gamma",
  "Delta", "Epsilon", "Zeta", "Eta", "Theta", "Iota", "Kappa", "Lambda", "Mu", "Nu", "Xi",
  "Omicron", "Pi", "Rho", "Sigma", "Tau", "Upsilon", "Phi", "Chi", "Psi", "Omega", "ndash",
  "mdash", "hellip", "lsquo", "rsquo", "ldquo", "rdquo", "sbquo", "bdquo", "lsaquo", "rsaquo",
  "laquo", "raquo", "loz", "spades", "clubs", "hearts", "diams", "Aacute", "aacute", "Acirc",
  "acirc", "Agrave", "agrave", "Aring", "aring", "Atilde", "atilde", "Auml", "auml", "AElig",
  "aelig", "Ccedil", "ccedil", "Eacute", "eacute", "Ecirc", "ecirc", "Egrave", "egrave",
  "Euml", "euml", "Iacute", "iacute", "Icirc", "icirc", "Igrave", "igrave", "Iuml", "iuml",
  "Ntilde", "ntilde", "Oacute", "oacute", "Ocirc", "ocirc", "Ograve", "ograve", "Oslash",
  "oslash", "Otilde", "otilde", "Ouml", "ouml", "OElig", "oelig", "Scaron", "scaron", "szlig",
  "Uacute", "uacute", "Ucirc", "ucirc", "Ugrave", "ugrave", "Uuml", "uuml", "Yacute",
  "yacute", "Yuml", "yuml", "THORN", "thorn", "ETH", "eth"]

/-- Elements whose end tag may be left out. -/
def optionalEndTags : List String := [
  "html", "head", "body", "li", "dt", "dd", "p", "rt", "rp", "optgroup", "option", "colgroup",
  "caption", "thead", "tbody", "tfoot", "tr", "td", "th"]

/-- Start tags that end an open paragraph. -/
def paragraphEnders : List String := [
  "address", "article", "aside", "blockquote", "details", "dialog", "div", "dl", "fieldset",
  "figcaption", "figure", "footer", "form", "h1", "h2", "h3", "h4", "h5", "h6", "header",
  "hgroup", "hr", "main", "menu", "nav", "ol", "p", "pre", "search", "section", "table", "ul"]

/-- The start tags that end an open element of the given name without its end tag. -/
def impliedEnders : String → List String
  | "p" => paragraphEnders
  | "li" => ["li"]
  | "dt" | "dd" => ["dt", "dd"]
  | "rt" | "rp" => ["rt", "rp"]
  | "option" => ["option", "optgroup"]
  | "optgroup" => ["optgroup"]
  | "thead" | "tbody" => ["tbody", "tfoot"]
  | "tr" => ["tr", "tbody", "tfoot"]
  | "td" | "th" => ["td", "th", "tr", "tbody", "tfoot"]
  | "head" => ["body"]
  | _ => []

/-- Whether the start tag `start` ends the open element `opened`. -/
def impliesEnd (opened start : String) : Bool :=
  (impliedEnders opened).contains start

/-- Whether `name`, in any case, is a standard attribute or begins like a known family. -/
def isKnownAttribute (name : String) : Bool :=
  let lowered := Text.lower name
  attributes.contains lowered
    || attributeStems.any fun stem => stem.toList.isPrefixOf lowered.toList

/-- The style of a tag by its name; a name with a hyphen is an element of the page's own and
counts as known. -/
def tagStyle (name : String) : String :=
  let lowered := Text.lower name
  if knownTags.contains lowered || lowered.toList.contains '-' then "tag" else "tag-unknown"

end SourceView.Markup
