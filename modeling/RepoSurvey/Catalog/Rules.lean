import RepoSurvey.Catalog.Rule

/-!
# The catalog

The rules themselves. `Catalog.rules` is the whole list, in the order in which detections are
reported.
-/

namespace RepoSurvey.Catalog

open Pattern
open CharSet (oneOf noneOf)

/-! ## File shapes and turns of phrase that several rules share -/

def globs (texts : List String) : List FileGlob := texts.map FileGlob.mk

/-- Scripts and components. -/
def components : List FileGlob := globs ["**/*.ts", "**/*.tsx", "**/*.js", "**/*.jsx"]

/-- Scripts on a server. -/
def scripts : List FileGlob := globs ["**/*.ts", "**/*.js", "**/*.py"]

/-- Patterns with any number of blanks between them. -/
def spaced (parts : List Pattern) : Pattern := seqs (parts.intersperse blanks)

/-- A call up to its first argument in quotes. -/
def callWithText (callee : List Pattern) : Pattern :=
  spaced (callee ++ [literal "(", .one quote])

def comparisonSign : Pattern := seqs [oneOf "=!", "=", optional "="]

/-- A choice between two quoted texts after a comparison with one. -/
def choiceOnOne (counted : String) : Pattern :=
  spaced [counted, comparisonSign, "1", "?", seqs [quote, stretch, quote], ":",
    seqs [quote, stretch, quote]]

/-- A decimal fraction with no whole part but zero. -/
def fractionOf (digits : Pattern) : Pattern := seqs [optional "0", ".", digits]

/-! ## Internationalization and search engines -/

def manualPluralization : Rule where
  id := "i18n-manual-pluralization"
  domain := "i18n"
  description := "Hand-rolled pluralization logic (if/else or ternary on count)"
  files := components
  code := [choiceOnOne "count", choiceOnOne ".length"]
  confidence := .decimal 7 1

def manualLocaleDetection : Rule where
  id := "i18n-manual-locale-detection"
  domain := "i18n"
  description := "Manual navigator.language or Accept-Language header parsing"
  files := components
  code := [spaced ["navigator", ".", "language"],
    ignoringCase "accept-language",
    spaced ["toLocaleDateString", "("]]
  confidence := .decimal 65 2

def manualMetaTags : Rule where
  id := "seo-manual-meta-tags"
  domain := "seo"
  description := "Hand-rolled <meta> tag injection via DOM manipulation"
  files := components
  code := [spaced ["document", ".", "createElement", "(", seqs [quote, "meta", quote], ")"],
    spaced ["document", ".", "head", ".", "appendChild"],
    spaced ["document", ".", "querySelector", "(", seqs [quote, "meta["]]]
  confidence := .decimal 75 2

def manualSitemap : Rule where
  id := "seo-manual-sitemap"
  domain := "seo"
  description := "Hand-rolled XML sitemap generation"
  files := globs ["**/*.ts", "**/*.js", "**/*.xml"]
  code := [seqs ["<?xml", blanks1, "version"],
    seqs ["<urlset", blanks1, "xmlns"],
    ignoringCase (seqs ["writeFileSync", blanks, "(", stretch, "sitemap"])]
  confidence := .decimal 8 1

/-! ## Growth -/

def manualExperiment : Rule where
  id := "growth-manual-ab-test"
  domain := "growth-hacking"
  description := "Hand-rolled A/B testing with Math.random() or cookie-based splits"
  files := components
  code := [
    spaced ["Math", ".", "random", "(", ")", seqs [oneOf "<>", optional "="],
      seqs [optional "0", "."], "5"],
    ignoringCase (spaced ["variant", "=", seqs [quote, oneOf "AB", quote]]),
    ignoringCase (seqs [spaced ["experiment", oneOf "=:"], blanks, stretch, "random"])]
  confidence := .decimal 7 1

def manualFeatureFlags : Rule where
  id := "growth-manual-feature-flags"
  domain := "growth-hacking"
  description := "Hand-rolled feature flag checks via environment variables or config objects"
  files := components
  code := [spaced ["process", ".", "env", ".", "FEATURE_"],
    spaced [seqs ["featureFlag", optional "s"], "["],
    spaced ["isFeatureEnabled", "("]]
  confidence := .decimal 6 1

/-! ## Models and agents -/

def manualPromptTemplate : Rule where
  id := "ai-manual-prompt-template"
  domain := "ai-model-serving"
  description := "Hand-rolled prompt template string interpolation"
  files := components ++ globs ["**/*.py"]
  code := [
    ignoringCase (seqs ["`", star (noneOf "`"), "$\x7b", stretch, "\x7d", star (noneOf "`"), "`",
      blanks, stretch, alts ["prompt", "system", "user", "assistant"]]),
    ignoringCase (seqs ["f", oneOf "'\"", stretch, "\x7b", stretch, "\x7d", stretch, oneOf "'\"",
      stretch, alts ["prompt", "model", "completion"]]),
    spaced [".replace", "(", seqs [quote, "\x7b", stretch, "\x7d", quote]]]
  confidence := .decimal 65 2

def manualInferenceCall : Rule where
  id := "ai-manual-inference-http"
  domain := "ai-model-serving"
  description := "Hand-rolled HTTP calls to model inference endpoints"
  files := scripts
  code := [
    ignoringCase (seqs [callWithText ["fetch"], stretch,
      alts ["openai", "anthropic", "huggingface", "inference"]]),
    ignoringCase (seqs [callWithText ["axios", ".", "post"], stretch,
      alts ["completions", "chat", "generate"]]),
    ignoringCase (seqs [callWithText ["requests", ".", "post"], stretch, alts ["v1/", "api/"]])]
  confidence := .decimal 7 1

def manualToolDispatch : Rule where
  id := "agent-manual-tool-dispatch"
  domain := "agent-architecture"
  description := "Hand-rolled tool dispatch with switch/case or if/else chains"
  files := scripts
  code := [
    ignoringCase (spaced ["switch", "(", seqs ["tool", alts ["Name", "_name", "Id"]], ")"]),
    ignoringCase (spaced ["if", "(", seqs ["tool", alts ["Name", "_name"]],
      seqs ["==", optional "="], quote]),
    ignoringCase (spaced ["tool_map", "["])]
  confidence := .decimal 7 1

def manualContextWindow : Rule where
  id := "agent-manual-context-window"
  domain := "agent-architecture"
  description := "Hand-rolled context window management (token counting, truncation)"
  files := scripts
  code := [
    ignoringCase (spaced [seqs ["token", optional (oneOf "_s")],
      alts ["count", "length", "limit"]]),
    ignoringCase (seqs ["truncat", alts ["e", "ion"], blanks, stretch,
      alts ["context", "message", "prompt"]]),
    ignoringCase (spaced [seqs ["maxToken", optional "s"], oneOf "=:"])]
  confidence := .decimal 6 1

/-! ## Content -/

def manualMarkdownParsing : Rule where
  id := "content-manual-markdown-parsing"
  domain := "content-marketing"
  description := "Hand-rolled markdown parsing with regex or string manipulation"
  files := globs ["**/*.ts", "**/*.js", "**/*.tsx", "**/*.jsx"]
  code := [spaced [".replace", "(", "/", "#"],
    spaced [".replace", "(", "/", "\\*\\*"],
    spaced [".split", "(", seqs [quote, "\\n", quote], ")", ".", "map"]]
  confidence := .decimal 65 2

def manualMdxProcessing : Rule where
  id := "content-manual-mdx-processing"
  domain := "content-marketing"
  description := "Hand-rolled MDX/markdown file processing pipeline"
  files := globs ["**/*.ts", "**/*.js"]
  code := [
    ignoringCase (seqs ["readFileSync", blanks, "(", stretch, ".md", optional "x",
      anchor .wordEdge]),
    ignoringCase (seqs ["glob", blanks, "(", stretch, ".md", optional "x", anchor .wordEdge]),
    ignoringCase (alts ["frontmatter", "gray-matter"])]
  confidence := .decimal 6 1

/-! ## Commerce -/

def manualPaymentIntegration : Rule where
  id := "ecommerce-manual-payment-integration"
  domain := "cross-border-ecommerce"
  description := "Hand-rolled payment gateway HTTP integration"
  files := scripts
  code := [
    ignoringCase (seqs [callWithText ["fetch"], stretch, alts ["stripe", "paypal", "checkout"],
      stretch, quote]),
    ignoringCase (seqs ["payment", optional (oneOf "_-"), "intent"]),
    ignoringCase (spaced ["charge", ".", "create"])]
  confidence := .decimal 75 2

def manualTaxCalculation : Rule where
  id := "ecommerce-manual-tax-calculation"
  domain := "cross-border-ecommerce"
  description := "Hand-rolled tax/VAT calculation logic"
  files := scripts
  code := [
    ignoringCase (spaced [seqs ["tax", optional (oneOf "_-"), "rate"], oneOf "=:",
      fractionOf (plus .digit)]),
    ignoringCase (spaced ["vat", oneOf "=:*"]),
    ignoringCase (spaced ["calculateTax", "("])]
  confidence := .decimal 65 2

/-! ## Operations and security -/

def manualLogging : Rule where
  id := "observability-manual-logging"
  domain := "observability"
  description := "Hand-rolled logging with console.log/console.error in production code"
  files := globs ["**/*.ts", "**/*.js", "**/*.tsx", "**/*.jsx"]
  code := [spaced ["console", ".", alts ["log", "error", "warn", "info"], "("]]
  confidence := .decimal 55 2

def manualErrorTracking : Rule where
  id := "observability-manual-error-tracking"
  domain := "observability"
  description := "Hand-rolled error tracking with try/catch and HTTP reporting"
  files := globs ["**/*.ts", "**/*.js", "**/*.tsx", "**/*.jsx"]
  code := [
    seqs [spaced ["catch", "(", plus .word, ")", "\x7b"], star (noneOf "\x7d"),
      spaced ["fetch", "("]],
    spaced ["window", ".", "onerror"],
    spaced ["process", ".", "on", "(", seqs [quote, "uncaughtException", quote]]]
  confidence := .decimal 7 1

def manualTokenHandling : Rule where
  id := "auth-manual-jwt-handling"
  domain := "auth-security"
  description := "Hand-rolled JWT token creation/verification"
  files := scripts
  code := [
    seqs [spaced ["atob", "("], blanks, stretch,
      spaced ["split", "(", seqs [quote, ".", quote], ")"]],
    seqs [spaced ["Buffer", ".", "from", "("], stretch,
      spaced [seqs [quote, "base64", quote], ")"]],
    ignoringCase (spaced ["jwt", ".", "sign", "("]),
    spaced ["createHmac", "("]]
  confidence := .decimal 75 2

def manualRateLimiting : Rule where
  id := "auth-manual-rate-limiting"
  domain := "auth-security"
  description := "Hand-rolled rate limiting with in-memory counters or timestamps"
  files := globs ["**/*.ts", "**/*.js"]
  code := [
    ignoringCase (spaced ["requestCount", "+=", "1"]),
    ignoringCase (seqs ["rateLimi", alts ["t", "ter"]]),
    ignoringCase (seqs ["new", blanks1, spaced ["Map", "(", ")"], stretch,
      alts ["timestamp", "count", "window"]])]
  confidence := .decimal 65 2

/-! ## User interfaces -/

def manualFormValidation : Rule where
  id := "ux-manual-form-validation"
  domain := "ux-completeness"
  description := "Hand-rolled form validation with manual state tracking"
  files := globs ["**/*.tsx", "**/*.jsx", "**/*.ts", "**/*.js"]
  code := [callWithText ["setError"],
    spaced ["errors", "[", seqs [quote, plus .word, quote], "]"],
    spaced [seqs ["validate", star .word], "=", "(", ")", "=>"]]
  confidence := .decimal 7 1

def manualLoadingStates : Rule where
  id := "ux-manual-loading-states"
  domain := "ux-completeness"
  description := "Hand-rolled loading state management without skeleton/spinner library"
  files := globs ["**/*.tsx", "**/*.jsx"]
  code := [
    ignoringCase (seqs [spaced ["isLoading", "?"], blanks, stretch,
      alts ["Loading", "Spinner", "..."]]),
    ignoringCase (seqs [spaced ["useState", "<", "boolean", ">", "(", alts ["true", "false"], ")"],
      stretch, "loading"])]
  confidence := .decimal 55 2

def rules : List Rule :=
  [manualPluralization, manualLocaleDetection, manualMetaTags, manualSitemap, manualExperiment,
   manualFeatureFlags, manualPromptTemplate, manualInferenceCall, manualToolDispatch,
   manualContextWindow, manualMarkdownParsing, manualMdxProcessing, manualPaymentIntegration,
   manualTaxCalculation, manualLogging, manualErrorTracking, manualTokenHandling,
   manualRateLimiting, manualFormValidation, manualLoadingStates]

end RepoSurvey.Catalog
