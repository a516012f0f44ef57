import ProviderGen.Java.Operation
import ProviderGen.Template.Lines

/-!
Sources that a developer starts from: a handler and a test for every operation, the callback
context, and the configuration that knows the schema file.
-/

namespace ProviderGen.Template

open ProviderGen.Java (Operation)

def callbackContext (package : String) : Lines := [
  "package " ++ package ++ ";",
  "",
  "import lombok.AllArgsConstructor;",
  "import lombok.Builder;",
  "import lombok.Data;",
  "import lombok.NoArgsConstructor;",
  "",
  "@Data",
  "@NoArgsConstructor",
  "@AllArgsConstructor",
  "@Builder",
  "public class CallbackContext \x7b",
  "",
  "\x7d"]

def configuration (package schemaFile : String) : Lines := [
  "package " ++ package ++ ";",
  "",
  "class Configuration extends BaseConfiguration \x7b",
  "",
  "    public Configuration() \x7b",
  "        super(\"" ++ schemaFile ++ "\");",
  "    \x7d",
  "",
  "\x7d"]

def modelHandler (package : String) (op : Operation) (model : String) : Lines := [
  "package " ++ package ++ ";",
  "",
  "import com.amazonaws.cloudformation.proxy.AmazonWebServicesClientProxy;",
  "import com.amazonaws.cloudformation.proxy.Logger;",
  "import com.amazonaws.cloudformation.proxy.OperationStatus;",
  "import com.amazonaws.cloudformation.proxy.ProgressEvent;",
  "import com.amazonaws.cloudformation.proxy.ResourceHandlerRequest;",
  "",
  "public class " ++ op.name ++ "Handler extends BaseHandler<CallbackContext> \x7b",
  "",
  "    @Override",
  "    public ProgressEvent<" ++ model ++ ", CallbackContext> handleRequest(",
  "        final AmazonWebServicesClientProxy proxy,",
  "        final ResourceHandlerRequest<" ++ model ++ "> request,",
  "        final CallbackContext callbackContext,",
  "        final Logger logger) \x7b",
  "",
  "        final " ++ model ++ " model = request.getDesiredResourceState();",
  "",
  "        // TODO : put your code here",
  "",
  "        return ProgressEvent.<" ++ model ++ ", CallbackContext>builder()",
  "            .resourceModel(model)",
  "            .status(OperationStatus.SUCCESS)",
  "            .build();",
  "    \x7d",
  "\x7d"]

def pageHandler (package : String) (op : Operation) (model : String) : Lines := [
  "package " ++ package ++ ";",
  "",
  "import com.amazonaws.cloudformation.proxy.AmazonWebServicesClientProxy;",
  "import com.amazonaws.cloudformation.proxy.Logger;",
  "import com.amazonaws.cloudformation.proxy.OperationStatus;",
  "import com.amazonaws.cloudformation.proxy.ProgressEvent;",
  "import com.amazonaws.cloudformation.proxy.ResourceHandlerRequest;",
  "",
  "import java.util.ArrayList;",
  "import java.util.List;",
  "",
  "public class " ++ op.name ++ "Handler extends BaseHandler<CallbackContext> \x7b",
  "",
  "    @Override",
  "    public ProgressEvent<" ++ model ++ ", CallbackContext> handleRequest(",
  "        final AmazonWebServicesClientProxy proxy,",
  "        final ResourceHandlerRequest<" ++ model ++ "> request,",
  "        final CallbackContext callbackContext,",
  "        final Logger logger) \x7b",
  "",
  "        final List<" ++ model ++ "> models = new ArrayList<>();",
  "",
  "        // TODO : put your code here",
  "",
  "        return ProgressEvent.<" ++ model ++ ", CallbackContext>builder()",
  "            .resourceModels(models)",
  "            .status(OperationStatus.SUCCESS)",
  "            .build();",
  "    \x7d",
  "\x7d"]

/-- The first version of the handler for an operation. -/
def handler (package : String) (op : Operation) (model : String) : Lines :=
  if op.returnsPage then pageHandler package op model else modelHandler package op model

def modelAssertion (op : Operation) : String :=
  if op.returnsPage then
    "        assertThat(response.getResourceModel(), is(nullValue()));"
  else
    "        assertThat(response.getResourceModel(), is(equalTo(request.getDesiredResourceState())));"

def pageAssertion (op : Operation) : String :=
  if op.returnsPage then
    "        assertThat(response.getResourceModels(), is(not(nullValue())));"
  else
    "        assertThat(response.getResourceModels(), is(nullValue()));"

/-- The first version of the test for an operation. -/
def handlerTest (package : String) (op : Operation) (model : String) : Lines := [
  "package " ++ package ++ ";",
  "",
  "import com.amazonaws.cloudformation.proxy.AmazonWebServicesClientProxy;",
  "import com.amazonaws.cloudformation.proxy.Logger;",
  "import com.amazonaws.cloudformation.proxy.OperationStatus;",
  "import com.amazonaws.cloudformation.proxy.ProgressEvent;",
  "import com.amazonaws.cloudformation.proxy.ResourceHandlerRequest;",
  "import org.junit.Before;",
  "import org.junit.Test;",
  "import org.mockito.Mock;",
  "",
  "import static org.hamcrest.MatcherAssert.assertThat;",
  "import static org.hamcrest.Matchers.equalTo;",
  "import static org.hamcrest.Matchers.nullValue;",
  "import static org.hamcrest.core.Is.is;",
  "import static org.hamcrest.core.IsNot.not;",
  "import static org.mockito.Mockito.mock;",
  "",
  "public class " ++ op.name ++ "HandlerTest \x7b",
  "",
  "    @Mock",
  "    private AmazonWebServicesClientProxy proxy;",
  "",
  "    @Mock",
  "    private Logger logger;",
  "",
  "    @Before",
  "    public void setup() \x7b",
  "        proxy = mock(AmazonWebServicesClientProxy.class);",
  "        logger = mock(Logger.class);",
  "    \x7d",
  "",
  "    @Test",
  "    public void test_HandleRequest_SimpleSuccess() \x7b",
  "        final " ++ op.name ++ "Handler handler = new " ++ op.name ++ "Handler();",
  "",
  "        final " ++ model ++ " model = " ++ model ++ ".builder().build();",
  "",
  "        final ResourceHandlerRequest<" ++ model ++ "> request = ResourceHandlerRequest.<" ++
    model ++ ">builder()",
  "            .desiredResourceState(model)",
  "            .build();",
  "",
  "        final ProgressEvent<" ++ model ++ ", CallbackContext> response",
  "            = handler.handleRequest(proxy, request, null, logger);",
  "",
  "        assertThat(response, is(not(nullValue())));",
  "        assertThat(response.getStatus(), is(equalTo(OperationStatus.SUCCESS)));",
  "        assertThat(response.getCallbackContext(), is(nullValue()));",
  "        assertThat(response.getCallbackDelaySeconds(), is(equalTo(0)));",
  modelAssertion op,
  pageAssertion op,
  "        assertThat(response.getMessage(), is(nullValue()));",
  "        assertThat(response.getErrorCode(), is(nullValue()));",
  "    \x7d",
  "\x7d"]

end ProviderGen.Template
