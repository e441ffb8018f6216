import RepoSurvey.NameSet

/-!
# Domains

The fixed vocabulary of domains that a rule may belong to.
-/

namespace RepoSurvey.Catalog

def domains : NameSet := NameSet.ofList (List.flatten [
  -- UX completeness and design system
  ["ux-completeness", "ui-aesthetics", "design-system", "theming-dark-mode",
   "a11y-accessibility", "responsive-mobile-ux", "empty-loading-error-states", "forms-ux",
   "validation-feedback", "navigation-information-architecture", "notifications-inapp",
   "tables-data-grid-ux", "filters-sort-search-ux", "onboarding-guided-tour"],
  -- SEO, i18n and content
  ["seo", "i18n", "localization-ux", "content-marketing", "landing-page-conversion"],
  -- Growth and data
  ["growth-hacking", "analytics-tracking", "attribution-measurement",
   "ab-testing-experimentation", "product-led-growth", "retention-lifecycle-crm",
   "referrals-virality"],
  -- App and frontend architecture
  ["agent-architecture", "frontend-architecture", "state-management", "data-fetching-caching",
   "error-handling-resilience", "realtime-collaboration", "file-upload-media",
   "search-discovery"],
  -- Backend and platform
  ["api-design-contracts", "backend-architecture", "database-orm-migrations",
   "caching-rate-limit", "jobs-queue-scheduler", "webhooks-integrations",
   "feature-flags-config", "multi-tenancy-saas"],
  -- Security and compliance
  ["auth-security", "permissions-rbac-ux", "security-hardening", "privacy-compliance",
   "fraud-abuse-prevention"],
  -- Observability and ops
  ["observability", "logging-tracing-metrics", "error-monitoring", "alerting-incident-response"],
  -- Delivery, quality and devex
  ["testing-strategy", "ci-cd-release", "devex-tooling", "documentation-sop",
   "code-quality-linting", "dependency-management"],
  -- Performance and cost
  ["performance-web-vitals", "backend-performance", "cost-optimization"],
  -- AI engineering
  ["ai-model-serving", "ai-evaluation-observability", "rag-vector-search"],
  -- Business domains
  ["cross-border-ecommerce", "payments-billing", "marketplace-platform"]])

end RepoSurvey.Catalog
